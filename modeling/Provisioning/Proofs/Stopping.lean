import Provisioning.Proofs.Answers
import Provisioning.Proofs.Recheck

/-! Stopping. A source that heeds its receiver passes nothing more once it is told to stop. Between such a
source and the caller's handler there are stages that answer by themselves for what they hold back, so a
record is kept of all that a system is told, query by query, and another of all that the caller's handler
answers. `search_stops_for_good` compares the two: a stop of the caller ends the query at hand and the search
with it, and nothing but a stop or a failure keeps a query from being run. -/

namespace Provisioning

def Unstopped {α : Type} (answered : List (α × Bool)) : Prop := ∀ x ∈ answered, x.2 = true

/-- Each item is either held back, and the source told to go on, or handed to the handler in some form, whose
answer is passed on. -/
inductive Relayed {α β : Type} (form : α → β) : List (α × Bool) → List (β × Bool) → Prop
  | nil : Relayed form [] []
  | heldBack {answered handed} (a : α) : Relayed form answered handed → Relayed form (answered ++ [(a, true)]) handed
  | handedOn {answered handed} (a : α) (go : Bool) :
      Relayed form answered handed → Relayed form (answered ++ [(a, go)]) (handed ++ [(form a, go)])

theorem unstopped_nil {α : Type} : Unstopped ([] : List (α × Bool)) := nofun

theorem unstopped_concat {α : Type} {answered : List (α × Bool)} {a : α} {go : Bool} :
    Unstopped (answered ++ [(a, go)]) ↔ Unstopped answered ∧ go = true := by
  simp [Unstopped, or_imp, forall_and]

theorem Unstopped.dropLast {α : Type} {answered : List (α × Bool)} (h : Unstopped answered) :
    Unstopped answered.dropLast := fun x hx => h x (List.dropLast_subset _ hx)

namespace Relayed

variable {α β : Type} {form : α → β} {answered : List (α × Bool)} {handed : List (β × Bool)}

theorem unstopped_iff (h : Relayed form answered handed) : Unstopped answered ↔ Unstopped handed := by
  induction h with
  | nil => exact ⟨fun _ => unstopped_nil, fun _ => unstopped_nil⟩
  | heldBack a _ ih => rw [unstopped_concat, ih, and_iff_left rfl]
  | handedOn a go _ ih => rw [unstopped_concat, unstopped_concat, ih]

/-- If the source was told to stop at the end only, then so did the handler. -/
theorem dropLast (h : Relayed form answered handed) (ha : Unstopped answered.dropLast) :
    Unstopped handed.dropLast := by
  cases h with
  | nil => exact unstopped_nil
  | heldBack a h =>
    rw [List.dropLast_concat] at ha
    exact (h.unstopped_iff.1 ha).dropLast
  | handedOn a go h =>
    rw [List.dropLast_concat] at ha ⊢
    exact h.unstopped_iff.1 ha

end Relayed

/-- A native query that was run: what it passed with the answers to it, and how it ended. -/
structure Turn (Query : Type) where
  query? : Option Query
  answered : List (ConnectorObject × Bool)
  outcome : Outcome SearchResult

/-- Queries are run one after the other, up to one that fails, or during which the receiver stopped, or to the last. -/
inductive Attended {Query : Type} :
    SearchResult → List (Option Query) → List (Turn Query) → Outcome SearchResult → Prop
  | done (result : SearchResult) : Attended result [] [] (.ok result)
  | failed {result query? rest answered} (b : Breakdown) : Unstopped answered.dropLast →
      Attended result (query? :: rest) [⟨query?, answered, .error b⟩] (.error b)
  | stopped {result query? rest answered} (last : SearchResult) : Unstopped answered.dropLast →
      ¬ Unstopped answered → Attended result (query? :: rest) [⟨query?, answered, .ok last⟩] (.ok last)
  | next {result query? rest answered turns outcome} (last : SearchResult) : Unstopped answered →
      Attended last rest turns outcome →
      Attended result (query? :: rest) (⟨query?, answered, .ok last⟩ :: turns) outcome

namespace Attended

variable {Query : Type} {result : SearchResult} {asked : List (Option Query)} {turns : List (Turn Query)}
  {outcome : Outcome SearchResult}

theorem queries_prefix (h : Attended result asked turns outcome) : turns.map (·.query?) <+: asked := by
  induction h with
  | done => exact List.nil_prefix
  | failed => exact ⟨_, rfl⟩
  | stopped => exact ⟨_, rfl⟩
  | next _ _ _ ih =>
    obtain ⟨rest, hrest⟩ := ih
    exact ⟨rest, congrArg (_ :: ·) hrest⟩

theorem outcome_eq (h : Attended result asked turns outcome) :
    outcome = (turns.getLast?.map (·.outcome)).getD (.ok result) := by
  induction h with
  | done => rfl
  | failed => rfl
  | stopped => rfl
  | @next _ _ _ _ turns _ _ _ _ ih =>
    rw [ih, List.getLast?_cons]
    cases turns.getLast? <;> rfl

theorem outcome_last (h : Attended result asked turns outcome) (hasked : asked ≠ []) :
    turns.getLast?.map (·.outcome) = some outcome := by
  have hturns : turns ≠ [] := by
    cases h with
    | done => exact absurd rfl hasked
    | _ => exact List.cons_ne_nil _ _
  rw [h.outcome_eq, List.getLast?_eq_some_getLast hturns]
  rfl

/-- Only during the last query the receiver stops, and only the last query fails. -/
theorem earlier (h : Attended result asked turns outcome) :
    ∀ t ∈ turns.dropLast, Unstopped t.answered ∧ ∃ last, t.outcome = .ok last := by
  induction h with
  | done => exact nofun
  | failed => exact nofun
  | stopped => exact nofun
  | @next _ _ _ _ turns _ last hgo _ ih =>
    cases turns with
    | nil => exact nofun
    | cons t rest => exact List.forall_mem_cons.2 ⟨⟨hgo, last, rfl⟩, ih⟩

theorem stopped_last (h : Attended result asked turns outcome) :
    Unstopped (turns.flatMap (·.answered)).dropLast := by
  induction h with
  | done => exact unstopped_nil
  | failed _ hlast => simpa using hlast
  | stopped _ hlast => simpa using hlast
  | @next _ _ _ answered turns _ _ hgo _ ih =>
    rw [List.flatMap_cons]
    intro x hx
    by_cases hrest : turns.flatMap (·.answered) = []
    · rw [hrest, List.append_nil] at hx
      exact hgo.dropLast x hx
    · rw [List.dropLast_append_of_ne_nil hrest] at hx
      exact (List.mem_append.1 hx).elim (hgo x) (ih x)

theorem complete (h : Attended result asked turns outcome) (hgo : Unstopped (turns.flatMap (·.answered))) :
    (∃ b, outcome = .error b) ∨ turns.map (·.query?) = asked := by
  induction h with
  | done => exact .inr rfl
  | failed b => exact .inl ⟨b, rfl⟩
  | stopped _ _ hstop => exact absurd (by simpa using hgo) hstop
  | next _ _ _ ih =>
    rw [List.flatMap_cons] at hgo
    exact (ih fun x hx => hgo x (List.mem_append_right _ hx)).imp_right (congrArg (_ :: ·))

theorem single {query? : Option Query} {answered : List (ConnectorObject × Bool)} {outcome : Outcome SearchResult}
    (h : Unstopped answered.dropLast) : Attended result [query?] [⟨query?, answered, outcome⟩] outcome := by
  by_cases hgo : Unstopped answered
  · cases outcome with
    | error b => exact .failed b h
    | ok last => exact .next last hgo (.done last)
  · cases outcome with
    | error b => exact .failed b h
    | ok last => exact .stopped last h hgo

end Attended

def Handler.distinct {σ : Type} (handler : Handler ConnectorObject σ) : Handler ConnectorObject (σ × Distinct) :=
  fun o (s, memory) =>
    if o.uid ∈ memory.seen then (true, s, memory)
    else
      let (go, s) := handler o s
      (go, s, ⟨o.uid :: memory.seen, go⟩)

namespace Handler

variable {σ : Type} {o : ConnectorObject} {memory : Distinct}

theorem distinct_of_seen (h : o.uid ∈ memory.seen) (handler : Handler ConnectorObject σ) (s : σ) :
    handler.distinct o (s, memory) = (true, s, memory) := if_pos h

theorem distinct_of_new (h : o.uid ∉ memory.seen) (handler : Handler ConnectorObject σ) (s : σ) :
    handler.distinct o (s, memory) =
      (((handler o).run s).1, ((handler o).run s).2, ⟨o.uid :: memory.seen, ((handler o).run s).1⟩) := if_neg h

end Handler

namespace Delivery

variable {α β ρ τ σ World Query : Type}

/-- Once it is told to stop, the source passes nothing more. -/
def Heeds : Delivery α ρ → Prop
  | done _ => True
  | pass _ next => (∃ r, next false = done r) ∧ (next true).Heeds

theorem heeds_untilStopped (r : ρ) (l : List α) : (untilStopped r l).Heeds := by
  induction l with
  | nil => trivial
  | cons a rest ih => exact ⟨⟨r, rfl⟩, ih⟩

theorem Heeds.mapItems {d : Delivery α ρ} (hd : d.Heeds) (f : α → β) : (d.mapItems f).Heeds := by
  induction d with
  | done r => trivial
  | pass a next ih =>
    obtain ⟨r, hr⟩ := hd.1
    exact ⟨⟨r, congrArg (Delivery.mapItems f) hr⟩, ih true hd.2⟩

theorem Heeds.filterItems {d : Delivery α ρ} (hd : d.Heeds) (p : α → Bool) : (d.filterItems p).Heeds := by
  induction d with
  | done r => trivial
  | pass a next ih =>
    unfold Delivery.filterItems
    split
    · obtain ⟨r, hr⟩ := hd.1
      exact ⟨⟨r, congrArg (Delivery.filterItems p) hr⟩, ih true hd.2⟩
    · exact ih true hd.2

/-- A source that heeds, and after it another, unless the stage that drops repetitions was told to stop. -/
theorem Heeds.distinct_andThen {d : Delivery ConnectorObject ρ} (hd : d.Heeds) {seen : List Uid}
    {k : ρ × Distinct → Delivery ConnectorObject τ} (hstop : ∀ r seen, ∃ t, k (r, ⟨seen, false⟩) = .done t)
    (hgo : (k (d.distinct ⟨seen, true⟩).finished).Heeds) : ((d.distinct ⟨seen, true⟩).andThen k).Heeds := by
  induction d generalizing seen with
  | done r => exact hgo
  | pass o next ih =>
    unfold Delivery.distinct at hgo ⊢
    split
    · next hseen =>
      rw [if_pos hseen] at hgo
      exact ih true hd.2 hgo
    · next hseen =>
      rw [if_neg hseen] at hgo
      obtain ⟨r, hr⟩ := hd.1
      obtain ⟨t, ht⟩ := hstop r (o.uid :: seen)
      have hstopped := congrArg (fun rest => (Delivery.distinct ⟨o.uid :: seen, false⟩ rest).andThen k) hr
      exact ⟨⟨t, hstopped.trans ht⟩, ih true hd.2 hgo⟩

theorem run_distinct (d : Delivery ConnectorObject ρ) (handler : Handler ConnectorObject σ) (s : σ)
    (memory : Distinct) :
    ((d.distinct memory).run handler).run s =
      let ended := (d.run handler.distinct).run (s, memory)
      ((ended.1, ended.2.2), ended.2.1) := by
  induction d generalizing s memory with
  | done r => rfl
  | pass o next ih =>
    rw [run_pass]
    unfold Delivery.distinct
    split
    · next h =>
      rw [show (handler.distinct o).run (s, memory) = _ from Handler.distinct_of_seen h handler s]
      exact ih true s memory
    · next h =>
      rw [show (handler.distinct o).run (s, memory) = _ from Handler.distinct_of_new h handler s]
      exact ih _ _ _

/-- What holds of the answers and the state of a handler, and is kept when an item is handed over, holds in the
end; and the source was told to stop at the end only. -/
theorem Heeds.run_answered {d : Delivery α ρ} (hd : d.Heeds) {handler : Handler α σ}
    {Kept : List (α × Bool) → σ → Prop}
    (hand : ∀ {answers s} a, Unstopped answers → Kept answers s →
      Kept (answers ++ [(a, ((handler a).run s).1)]) ((handler a).run s).2)
    {earlier : List (α × Bool)} {s : σ} (hgo : Unstopped earlier) (h : Kept earlier s) :
    ∃ r answers s', ((d.answered earlier).run handler).run s = ((r, answers), s') ∧
      Kept answers s' ∧ Unstopped answers.dropLast := by
  induction d generalizing earlier s with
  | done r => exact ⟨r, earlier, s, rfl, h, hgo.dropLast⟩
  | pass a next ih =>
    have hnext := hand a hgo h
    rw [answered, run_pass]
    cases hanswer : ((handler a).run s).1 with
    | true =>
      rw [hanswer] at hnext
      exact ih true hd.2 (unstopped_concat.2 ⟨hgo, rfl⟩) hnext
    | false =>
      obtain ⟨r, hr⟩ := hd.1
      rw [hanswer] at hnext
      rw [hr]
      refine ⟨r, _, _, rfl, hnext, ?_⟩
      rw [List.dropLast_concat]
      exact hgo

/-- The same delivery, but its result tells of the turn that it was, after the turns that came before. -/
def asTurn (query? : Option Query) (earlier : List (Turn Query))
    (d : Delivery ConnectorObject (Outcome SearchResult × World)) :
    Delivery ConnectorObject (Outcome SearchResult × World × List (Turn Query)) :=
  (d.answered []).mapResult fun ((outcome, w), answers) => (outcome, w, earlier ++ [⟨query?, answers, outcome⟩])

theorem mapResult_asTurn (query? : Option Query) (earlier : List (Turn Query))
    (d : Delivery ConnectorObject (Outcome SearchResult × World)) :
    (d.asTurn query? earlier).mapResult unrecorded = d := by
  rw [asTurn, mapResult_mapResult]
  exact mapResult_answered [] d

theorem Heeds.run_asTurn {d : Delivery ConnectorObject (Outcome SearchResult × World)} (hd : d.Heeds)
    {handler : Handler ConnectorObject σ} {Kept : List (ConnectorObject × Bool) → σ → Prop}
    (hand : ∀ {answers s} o, Unstopped answers → Kept answers s →
      Kept (answers ++ [(o, ((handler o).run s).1)]) ((handler o).run s).2)
    (query? : Option Query) (earlier : List (Turn Query)) {s : σ} (h : Kept [] s) :
    ∃ outcome w answers s', ((d.asTurn query? earlier).run handler).run s =
        ((outcome, w, earlier ++ [⟨query?, answers, outcome⟩]), s') ∧
      Kept answers s' ∧ Unstopped answers.dropLast := by
  obtain ⟨r, answers, s', hrun, hkept, hlast⟩ := hd.run_answered hand unstopped_nil h
  refine ⟨r.1, r.2, answers, s', ?_, hkept, hlast⟩
  rw [asTurn, run_mapResult, hrun]
  rfl

end Delivery

namespace QueryRunner

variable {World Query σ : Type}

/-- The same system with a record of the queries it runs, kept beside its world. -/
def attended (runner : QueryRunner World Query) : QueryRunner (World × List (Turn Query)) Query where
  translator c options w filter? := runner.translator c options w.1 filter?
  execute c query? options w := (runner.execute c query? options w.1).asTurn query? w.2

theorem keeps_attended (runner : QueryRunner World Query) : Keeps runner.attended runner where
  translator _ _ _ _ := rfl
  execute _ _ _ w := Delivery.mapResult_asTurn _ w.2 _

/-- What a search asks a system for: the queries of the translated filter, or everything if there is none. -/
def asked : List Query → List (Option Query)
  | [] => [none]
  | queries => queries.map some

theorem asked_ne_nil (queries : List Query) : asked queries ≠ [] := by
  cases queries <;> exact List.cons_ne_nil _ _

variable {runner : QueryRunner World Query} {handler : Handler ConnectorObject σ}
  {Kept : List (ConnectorObject × Bool) → σ → Prop}

/-- A query of several: what the stage that drops repetitions remembers is whether the receiver stopped. -/
theorem run_distinct_attended {c : ObjectClass} {query? : Option Query} {options : Options} {w : World}
    (hheeds : (runner.execute c query? options w).Heeds)
    (repeated : ∀ {answered s} o, Kept answered s → Kept (answered ++ [(o, true)]) s)
    (hand : ∀ {answered s} o, Kept answered s →
      Kept (answered ++ [(o, ((handler o).run s).1)]) ((handler o).run s).2)
    {memory : Distinct} (hmemory : memory.stillHandling = true) {earlier : List (Turn Query)} {s : σ}
    (h : Kept (earlier.flatMap (·.answered)) s) :
    ∃ outcome w' memory' answered s',
      (((runner.attended.execute c query? options (w, earlier)).distinct memory).run handler).run s =
        (((outcome, w', earlier ++ [⟨query?, answered, outcome⟩]), memory'), s') ∧
      Kept (earlier.flatMap (·.answered) ++ answered) s' ∧ Unstopped answered.dropLast ∧
      (memory'.stillHandling = true ↔ Unstopped answered) := by
  let Kept' (answered : List (ConnectorObject × Bool)) (kept : σ × Distinct) : Prop :=
    Kept (earlier.flatMap (·.answered) ++ answered) kept.1 ∧ (kept.2.stillHandling = true ↔ Unstopped answered)
  have hand' : ∀ {answered kept} o, Unstopped answered → Kept' answered kept →
      Kept' (answered ++ [(o, ((handler.distinct o).run kept).1)]) ((handler.distinct o).run kept).2 := by
    rintro answered ⟨s, memory⟩ o hgo ⟨hkept, hstill⟩
    unfold Kept'
    rw [← List.append_assoc, unstopped_concat]
    by_cases hseen : o.uid ∈ memory.seen
    · rw [show (handler.distinct o).run (s, memory) = _ from Handler.distinct_of_seen hseen handler s]
      exact ⟨repeated o hkept, by simpa using hstill⟩
    · rw [show (handler.distinct o).run (s, memory) = _ from Handler.distinct_of_new hseen handler s]
      exact ⟨hand o hkept, by simp [hgo]⟩
  have hstart : Kept' [] (s, memory) := ⟨by rwa [List.append_nil], by simp [hmemory, unstopped_nil]⟩
  obtain ⟨outcome, w', answered, ⟨s', memory'⟩, hrun, ⟨hkept, hstill⟩, hlast⟩ :=
    hheeds.run_asTurn hand' query? earlier hstart
  refine ⟨outcome, w', memory', answered, s', ?_, hkept, hlast, hstill⟩
  rw [Delivery.run_distinct]
  exact congrArg (fun ended => ((ended.1, ended.2.2), ended.2.1)) hrun

theorem run_runEach_attended (hheeds : ∀ c query? options w, (runner.execute c query? options w).Heeds)
    (repeated : ∀ {answered s} o, Kept answered s → Kept (answered ++ [(o, true)]) s)
    (hand : ∀ {answered s} o, Kept answered s →
      Kept (answered ++ [(o, ((handler o).run s).1)]) ((handler o).run s).2)
    (c : ObjectClass) (options : Options) (queries : List Query) (result : SearchResult) {memory : Distinct}
    (hmemory : memory.stillHandling = true) (w : World) (earlier : List (Turn Query)) {s : σ}
    (h : Kept (earlier.flatMap (·.answered)) s) :
    ∃ outcome w' turns s',
      ((runner.attended.runEach c options queries result memory (w, earlier)).run handler).run s =
        ((outcome, w', earlier ++ turns), s') ∧
      Kept ((earlier ++ turns).flatMap (·.answered)) s' ∧ Attended result (queries.map some) turns outcome := by
  induction queries generalizing result memory w earlier s with
  | nil =>
    refine ⟨.ok result, w, [], s, ?_, ?_, .done result⟩
    · rw [List.append_nil]
      rfl
    · rwa [List.append_nil]
  | cons q rest ih =>
    obtain ⟨outcome, w', memory', answered, s', hrun, hkept, hlast, hstill⟩ :=
      run_distinct_attended (hheeds c (some q) options w) repeated hand hmemory h
    have hkept' : Kept ((earlier ++ [(⟨some q, answered, outcome⟩ : Turn Query)]).flatMap (·.answered)) s' := by
      simpa using hkept
    rw [run_runEach_cons, hrun]
    cases outcome with
    | error b => exact ⟨_, w', _, s', rfl, hkept', .failed b hlast⟩
    | ok last =>
      dsimp only
      split
      · next hgo =>
        obtain ⟨outcome, w'', turns, s'', hrest, hkept'', hattended⟩ := ih last hgo w' _ hkept'
        rw [List.append_assoc] at hrest hkept''
        exact ⟨outcome, w'', _, s'', hrest, hkept'', .next last (hstill.1 hgo) hattended⟩
      · next hstop => exact ⟨_, w', _, s', rfl, hkept', .stopped last hlast (mt hstill.2 hstop)⟩

variable (Kept) in
theorem run_searcher_attended (hheeds : ∀ c query? options w, (runner.execute c query? options w).Heeds)
    (repeated : ∀ {answered s} o, Kept answered s → Kept (answered ++ [(o, true)]) s)
    (hand : ∀ {answered s} o, Kept answered s →
      Kept (answered ++ [(o, ((handler o).run s).1)]) ((handler o).run s).2)
    (c : ObjectClass) (filter? : Option Filter) (options : Options) (w : World) {s : σ} (h : Kept [] s) :
    ∃ outcome w' turns s',
      ((runner.attended.searcher c filter? options (w, [])).run handler).run s = ((outcome, w', turns), s') ∧
      Kept (turns.flatMap (·.answered)) s' ∧
      Attended {} (asked (runner.translator c options w filter?)) turns outcome := by
  have hsingle (query? : Option Query) : ∃ outcome w' turns s',
      ((runner.attended.execute c query? options (w, [])).run handler).run s = ((outcome, w', turns), s') ∧
      Kept (turns.flatMap (·.answered)) s' ∧ Attended {} [query?] turns outcome := by
    obtain ⟨outcome, w', answered, s', hrun, hkept, hlast⟩ :=
      (hheeds c query? options w).run_asTurn (fun o _ => hand o) query? [] h
    exact ⟨outcome, w', _, s', hrun, by simpa using hkept, .single hlast⟩
  unfold searcher
  rw [show runner.attended.translator c options (w, []) filter? = runner.translator c options w filter? from rfl]
  match runner.translator c options w filter? with
  | [] => exact hsingle none
  | [q] => exact hsingle (some q)
  | q :: r :: rest =>
    exact run_runEach_attended hheeds repeated hand c options (q :: r :: rest) {} rfl w [] h

end QueryRunner

namespace Hosted

variable {World Query σ : Type}

/-- The system learns what the caller answers to the objects that reach it. -/
theorem relayed_rechecking (normal : ConnectorObject → ConnectorObject) (filter? : Option Filter) (options : Options)
    (handler : Handler ConnectorObject σ) {answered : List (ConnectorObject × Bool)}
    {kept : σ × List (ConnectorObject × Bool)} (o : ConnectorObject)
    (h : Relayed (fun o => options.reduce (normal o)) answered kept.2) :
    Relayed (fun o => options.reduce (normal o))
      (answered ++ [(o, ((rechecking normal filter? options handler.answering o).run kept).1)])
      ((rechecking normal filter? options handler.answering o).run kept).2.2 := by
  unfold rechecking
  split
  · exact h.handedOn o _
  · exact h.heldBack o

/-- Once the caller's handler has answered stop, it is not called again, and the query at hand is the last one
run. Until then all queries are run in order, up to one that fails. -/
theorem search_stops_for_good {runner : QueryRunner World Query} {h : Hosted World} {w : World}
    (hsearch : h.connector.search? w = some runner.searcher)
    (hheeds : ∀ c query? options w, (runner.execute c query? options w).Heeds) (c : ObjectClass)
    (filter? : Option Filter) (options : Options) (handler : Handler ConnectorObject σ) (s : σ) :
    let normalFilter? := filter?.map (h.normalFilter c w)
    let covering := options.coveringFilter normalFilter?
    let asked := QueryRunner.asked (runner.translator c covering w normalFilter?)
    ∃ outcome w' s' turns handed,
      ((h.search c filter? options w).run handler).run s = ((outcome, w'), s') ∧
      ((refine (h.normalization c w) normalFilter? options
        (runner.attended.searcher c normalFilter? covering (w, []))).run handler.answering).run (s, []) =
          ((outcome, w', turns), s', handed) ∧
      Relayed (fun o => options.reduce (h.normalObject c w o)) (turns.flatMap (·.answered)) handed ∧
      Unstopped handed.dropLast ∧
      (∀ t ∈ turns.dropLast, Unstopped t.answered ∧ ∃ result, t.outcome = .ok result) ∧
      turns.map (·.query?) <+: asked ∧
      turns.getLast?.map (·.outcome) = some outcome ∧
      (Unstopped handed → (∃ b, outcome = .error b) ∨ turns.map (·.query?) = asked) := by
  intro normalFilter? covering asked
  obtain ⟨outcome, w', turns, ⟨s', handed⟩, hrun, hrelayed, hattended⟩ :=
    QueryRunner.run_searcher_attended (fun answered (kept : σ × List (ConnectorObject × Bool)) =>
        Relayed (fun o => options.reduce (h.normalObject c w o)) answered kept.2) hheeds (fun o h => h.heldBack o)
      (fun o ho => relayed_rechecking (h.normalObject c w) normalFilter? options handler o ho) c normalFilter?
      covering w (s := (s, [])) .nil
  rw [← onObject_normalization, ← run_refine] at hrun
  have hsearched : ((h.search c filter? options w).run handler).run s = ((outcome, w'), s') := by
    rw [← search_keeps runner.keeps_attended hsearch c filter? options [], Delivery.run_mapResult,
      Delivery.run_answering handler _ s []]
    exact congrArg (fun ended => (unrecorded ended.1, ended.2.1)) hrun
  exact ⟨outcome, w', s', turns, handed, hsearched, hrun, hrelayed, hrelayed.dropLast hattended.stopped_last,
    hattended.earlier, hattended.queries_prefix, hattended.outcome_last (QueryRunner.asked_ne_nil _),
    fun hgo => hattended.complete (hrelayed.unstopped_iff.2 hgo)⟩

def obliging : QueryRunner Unit Filter where
  translator _ _ _ filter? := ({} : Dialect).language.translate filter?
  execute _ query? _ w := .untilStopped (.ok {}, w) (staff.filter fun o => query?.all fun q => q.accepts o)

theorem search_stops_for_good_first :
    let h : Hosted Unit := ⟨default, { Connector.bare with search? := fun _ => some obliging.searcher }⟩
    let asked := QueryRunner.asked (({} : Dialect).language.translate (some annOrRed))
    h.connector.search? () = some obliging.searcher ∧
    (∀ c query? options w, (obliging.execute c query? options w).Heeds) ∧
    ∃ turns : List (Turn Filter), (turns.flatMap (·.answered)).map (·.2) = [false] ∧
      turns.map (·.query?) <+: asked ∧ turns.length = 1 ∧ asked.length = 2 := by
  intro h asked
  have hheeds : ∀ c query? options w, (obliging.execute c query? options w).Heeds :=
    fun _ _ _ _ => Delivery.heeds_untilStopped _ _
  obtain ⟨outcome, w', s', turns, handed, -, hrecorded, -, -, -, hprefix, -⟩ :=
    @search_stops_for_good _ _ _ obliging h () rfl hheeds .account (some annOrRed) {} (Handler.upTo (some 1)) []
  cases hrecorded
  exact ⟨rfl, hheeds, _, rfl, hprefix, rfl, rfl⟩

end Hosted

end Provisioning
