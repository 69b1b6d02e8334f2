import Mathlib.Data.List.Induction
import Provisioning.Proofs.Stopping

/-! Repetitions, call by call. Objects are fed to the stage that drops repetitions in front of a receiver that may say
anything. Whether the receiver stopped before makes no difference to the stage: it hands on what is new, passes on
what the receiver says, and tells the source to go on after a repetition. So nothing that is fed after a stop goes by
unnoticed, and the stage takes the receiver to handle again as soon as it says so: `distinct_follows_receiver`. -/

namespace Provisioning

variable {α σ : Type}

theorem Delivery.run_ofList_concat (handler : Handler α σ) (items : List α) (a : α) (s : σ) :
    ((ofList (items ++ [a])).run handler).run s =
      let past := ((ofList items).run handler).run s
      let now := (handler a).run past.2
      (past.1 ++ [now.1], now.2) := by
  induction items generalizing s with
  | nil => rfl
  | cons b rest ih =>
    rw [List.cons_append, ofList, ofList, run_pass, run_pass, run_mapResult, run_mapResult, ih]
    rfl

/-- What the source was told, what the stage remembers, and the receiver, with all that it was
handed and its answers. -/
structure Feeding (σ : Type) where
  told : List Bool
  memory : Distinct
  receiver : σ
  handed : List (ConnectorObject × Bool)

namespace Feeding

def dropped (past : Feeding σ) : Feeding σ := { past with told := past.told ++ [true] }

def handedOn (past : Feeding σ) (handler : Handler ConnectorObject σ) (o : ConnectorObject) : Feeding σ :=
  let answered := (handler o).run past.receiver
  ⟨past.told ++ [answered.1], ⟨o.uid :: past.memory.seen, answered.1⟩, answered.2, past.handed ++ [(o, answered.1)]⟩

end Feeding

namespace Handler

/-- Feeds objects, whatever the answers are, to the stage that drops repetitions in front of a receiver. -/
def fed (handler : Handler ConnectorObject σ) (s : σ) (objects : List ConnectorObject) : Feeding σ :=
  let ended := (((Delivery.ofList objects).distinct {}).run handler.answering).run (s, [])
  ⟨ended.1.1, ended.1.2, ended.2.1, ended.2.2⟩

section Steps

variable (handler : Handler ConnectorObject σ) (s : σ)

theorem fed_concat (before : List ConnectorObject) (o : ConnectorObject) :
    handler.fed s (before ++ [o]) =
      if o.uid ∈ (handler.fed s before).memory.seen then (handler.fed s before).dropped
      else (handler.fed s before).handedOn handler o := by
  simp only [fed, Delivery.run_distinct, Delivery.run_ofList_concat]
  obtain ⟨told, ⟨receiver, handed⟩, memory⟩ :=
    ((Delivery.ofList before).run handler.answering.distinct).run ((s, []), {})
  dsimp only
  by_cases hseen : o.uid ∈ memory.seen
  · rw [if_pos hseen, show (handler.answering.distinct o).run ((receiver, handed), memory) = _ from
      distinct_of_seen hseen handler.answering (receiver, handed)]
    rfl
  · rw [if_neg hseen, show (handler.answering.distinct o).run ((receiver, handed), memory) = _ from
      distinct_of_new hseen handler.answering (receiver, handed)]
    rfl

theorem mem_seen_fed (objects : List ConnectorObject) (uid : Uid) :
    uid ∈ (handler.fed s objects).memory.seen ↔ uid ∈ objects.map (·.uid) := by
  induction objects using List.reverseRecOn with
  | nil => exact Iff.rfl
  | append_singleton before o ih =>
    rw [fed_concat, List.map_append, List.mem_append, ← ih, List.map_singleton, List.mem_singleton]
    split
    · next hseen => exact ⟨.inl, fun h => h.elim id fun he => he ▸ hseen⟩
    · exact List.mem_cons.trans or_comm

variable {handler s} {before : List ConnectorObject} {o : ConnectorObject}

theorem fed_of_repeated (h : o.uid ∈ before.map (·.uid)) :
    handler.fed s (before ++ [o]) = (handler.fed s before).dropped :=
  (fed_concat handler s before o).trans (if_pos ((mem_seen_fed handler s before o.uid).2 h))

theorem fed_of_new (h : o.uid ∉ before.map (·.uid)) :
    handler.fed s (before ++ [o]) = (handler.fed s before).handedOn handler o :=
  (fed_concat handler s before o).trans (if_neg (mt (mem_seen_fed handler s before o.uid).1 h))

end Steps

section Runs

variable (handler : Handler ConnectorObject σ) (s : σ)

theorem stillHandling_fed (objects : List ConnectorObject) :
    (handler.fed s objects).memory.stillHandling = true ↔
      ∀ x ∈ (handler.fed s objects).handed.getLast?, x.2 = true := by
  induction objects using List.reverseRecOn with
  | nil => exact iff_of_true rfl nofun
  | append_singleton before o ih =>
    by_cases h : o.uid ∈ before.map (·.uid)
    · rw [fed_of_repeated h]
      exact ih
    · rw [fed_of_new h, Feeding.handedOn, List.getLast?_concat]
      simp

/-- What was said and what was handed on is not taken back. -/
theorem fed_append (before after : List ConnectorObject) :
    ∃ told handed, (handler.fed s (before ++ after)).told = (handler.fed s before).told ++ told ∧
      (handler.fed s (before ++ after)).handed = (handler.fed s before).handed ++ handed := by
  induction after using List.reverseRecOn with
  | nil => exact ⟨[], [], by simp⟩
  | append_singleton after o ih =>
    obtain ⟨told, handed, htold, hhanded⟩ := ih
    rw [← List.append_assoc]
    by_cases h : o.uid ∈ (before ++ after).map (·.uid)
    · rw [fed_of_repeated h, Feeding.dropped, htold, hhanded, List.append_assoc]
      exact ⟨_, handed, rfl, rfl⟩
    · rw [fed_of_new h, Feeding.handedOn, htold, hhanded, List.append_assoc, List.append_assoc]
      exact ⟨_, _, rfl, rfl⟩

theorem noticed_of_ne_nil (before : List ConnectorObject) {after : List ConnectorObject} (h : after ≠ []) :
    (handler.fed s (before ++ after)).handed ≠ (handler.fed s before).handed ∨
      (handler.fed s (before ++ after)).told ≠ (handler.fed s before).told ++ List.replicate after.length false := by
  obtain ⟨o, rest, rfl⟩ := List.exists_cons_of_ne_nil h
  obtain ⟨told, handed, htold, hhanded⟩ := fed_append handler s (before ++ [o]) rest
  rw [List.append_cons, htold, hhanded]
  by_cases hrepeated : o.uid ∈ before.map (·.uid)
  · right
    rw [fed_of_repeated hrepeated, Feeding.dropped]
    simp [List.replicate_succ]
  · left
    rw [fed_of_new hrepeated, Feeding.handedOn]
    simp

/-- Once it says that the receiver has stopped, the stage says so for as long as the receiver says stop. -/
theorem stays_stopped_iff {before : List ConnectorObject} (h : (handler.fed s before).memory.stillHandling = false)
    (after : List ConnectorObject) :
    (∀ more, more <+: after → (handler.fed s (before ++ more)).memory.stillHandling = false) ↔
      ∀ x ∈ (handler.fed s (before ++ after)).handed.drop (handler.fed s before).handed.length, x.2 = false := by
  induction after using List.reverseRecOn with
  | nil => simpa using h
  | append_singleton after o ih =>
    obtain ⟨-, handed, -, hhanded⟩ := fed_append handler s before after
    have hsplit : (∀ more, more <+: after ++ [o] → (handler.fed s (before ++ more)).memory.stillHandling = false) ↔
        (∀ more, more <+: after → (handler.fed s (before ++ more)).memory.stillHandling = false) ∧
          (handler.fed s (before ++ after ++ [o])).memory.stillHandling = false := by
      simp only [List.prefix_concat_iff, or_imp, forall_and, forall_eq, List.append_assoc, and_comm]
    rw [hsplit, ih, ← List.append_assoc]
    by_cases hrepeated : o.uid ∈ (before ++ after).map (·.uid)
    · rw [fed_of_repeated hrepeated]
      refine and_iff_left_of_imp fun hstop => ?_
      exact ih.2 hstop after (List.prefix_refl _)
    · rw [fed_of_new hrepeated, Feeding.handedOn, hhanded, List.append_assoc, List.drop_left, List.drop_left]
      simp [or_imp, forall_and]

end Runs

/-- A new object reaches the receiver, whose answer is what the source is told and what the stage says from then
on. After a repetition the source is told to go on, so a stop is not remembered. -/
theorem distinct_follows_receiver (handler : Handler ConnectorObject σ) (s : σ) (before : List ConnectorObject)
    (o : ConnectorObject) :
    let past := handler.fed s before
    let now := handler.fed s (before ++ [o])
    let go := ((handler o).run past.receiver).1
    (o.uid ∉ before.map (·.uid) →
      now.handed = past.handed ++ [(o, go)] ∧ now.told = past.told ++ [go] ∧ now.memory.stillHandling = go) ∧
    (o.uid ∈ before.map (·.uid) →
      now.handed = past.handed ∧ now.told = past.told ++ [true] ∧
        now.memory.stillHandling = past.memory.stillHandling) ∧
    (Unstopped past.handed → past.memory.stillHandling = true) ∧
    ∀ after, let later := handler.fed s (before ++ [o] ++ after)
      (later.handed = now.handed ∧ later.told = now.told ++ List.replicate after.length false ↔ after = []) ∧
      (now.memory.stillHandling = false →
        ((∀ more, more <+: after → (handler.fed s (before ++ [o] ++ more)).memory.stillHandling = false) ↔
          ∀ x ∈ later.handed.drop now.handed.length, x.2 = false)) := by
  intro past now go
  refine ⟨fun hnew => ?_, fun hrepeated => ?_, fun hgo => ?_, fun after => ⟨⟨fun ⟨hhanded, htold⟩ => ?_, ?_⟩, fun h =>
    stays_stopped_iff handler s h after⟩⟩
  · have hnow : now = past.handedOn handler o := fed_of_new hnew
    rw [hnow]
    exact ⟨rfl, rfl, rfl⟩
  · have hnow : now = past.dropped := fed_of_repeated hrepeated
    rw [hnow]
    exact ⟨rfl, rfl, rfl⟩
  · exact (stillHandling_fed handler s before).2 fun x hx => hgo x (List.mem_of_getLast? hx)
  · by_contra hne
    rcases noticed_of_ne_nil handler s (before ++ [o]) hne with h | h
    · exact h hhanded
    · exact h htold
  · rintro rfl
    simp [now]

def stoppingAt (uid : Uid) : Handler ConnectorObject Unit := fun o => pure (o.uid ≠ uid)

/-- After a stop at the first object the stage handles again with the second. -/
theorem distinct_follows_receiver_after_stop :
    let first : ConnectorObject := ⟨.account, ⟨"u1"⟩, .ofList [(Uid.mk "u1").toAttribute]⟩
    let second : ConnectorObject := ⟨.account, ⟨"u2"⟩, .ofList [(Uid.mk "u2").toAttribute]⟩
    let fed := (stoppingAt ⟨"u1"⟩).fed ()
    (fed [first]).memory.stillHandling = false ∧
    (fed [first, second]).handed = [(first, false), (second, true)] ∧
    (fed [first, second]).memory.stillHandling = true ∧
    (fed [first, first]).told = [false, true] := by
  intro first second fed
  obtain ⟨hfirst, -⟩ := distinct_follows_receiver (stoppingAt ⟨"u1"⟩) () [] first
  obtain ⟨hsecond, -⟩ := distinct_follows_receiver (stoppingAt ⟨"u1"⟩) () [first] second
  obtain ⟨-, hagain, -⟩ := distinct_follows_receiver (stoppingAt ⟨"u1"⟩) () [first] first
  obtain ⟨hhanded, htold, hstopped⟩ := hfirst (by decide)
  obtain ⟨hhanded', -, hhandles⟩ := hsecond (by decide)
  refine ⟨hstopped, ?_, hhandles, ?_⟩
  · exact hhanded'.trans (congrArg (· ++ [(second, true)]) hhanded)
  · exact (hagain (by decide)).2.1.trans (congrArg (· ++ [true]) htold)

end Handler

end Provisioning
