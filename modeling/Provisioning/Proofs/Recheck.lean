import Provisioning.Proofs.Scan

/-! Rechecking. Nothing is assumed of the system: it may ignore queries, pass what it likes, repeat itself and
go on after it was told to stop. A record of all it passes is kept beside its world, and another of all that
the caller's handler is handed; `search_rechecked` compares the two. A connector that searches by itself
instead of running queries is covered as well: it is a system whose queries are filters. -/

namespace Provisioning

def Handler.recording {α σ : Type} (handler : Handler α σ) : Handler α (σ × List α) := fun a (s, kept) =>
  let (go, s) := handler a s
  (go, s, kept ++ [a])

/-- The same delivery, but its result tells what was passed as well, after what was passed earlier. -/
def Delivery.noting {α ρ World : Type} (earlier : List α) :
    Delivery α (ρ × World) → Delivery α (ρ × World × List α)
  | done (r, w) => done (r, w, earlier)
  | pass a next => pass a fun go => noting (earlier ++ [a]) (next go)

/-- The same system with a record of all objects it passes, kept beside its world. -/
def QueryRunner.recorded {World Query : Type} (runner : QueryRunner World Query) :
    QueryRunner (World × List ConnectorObject) Query where
  translator c options w filter? := runner.translator c options w.1 filter?
  execute c query? options w := (runner.execute c query? options w.1).noting w.2

def unrecorded {World ρ Record : Type} (ended : ρ × World × Record) : ρ × World := (ended.1, ended.2.1)

namespace Delivery

variable {α ρ World : Type}

theorem run_recording {σ : Type} (handler : Handler α σ) (d : Delivery α ρ) (s : σ) (kept : List α) :
    (d.run handler).run s =
      let ended := (d.run handler.recording).run (s, kept)
      (ended.1, ended.2.1) := by
  induction d generalizing s kept with
  | done r => rfl
  | pass a next ih => exact ih _ _ _

theorem mapResult_noting (earlier : List α) (d : Delivery α (ρ × World)) :
    (d.noting earlier).mapResult unrecorded = d := by
  induction d generalizing earlier with
  | done r => rfl
  | pass a next ih => simp only [noting, mapResult, ih]

end Delivery

namespace QueryRunner

variable {World Query Record : Type} (runner : QueryRunner World Query)

/-- The same system with a record beside its world that changes nothing. -/
structure Keeps (recorded : QueryRunner (World × Record) Query) (runner : QueryRunner World Query) : Prop where
  translator : ∀ c options w filter?, recorded.translator c options w filter? = runner.translator c options w.1 filter?
  execute : ∀ c query? options w,
    (recorded.execute c query? options w).mapResult unrecorded = runner.execute c query? options w.1

variable {runner} {recorded : QueryRunner (World × Record) Query}

theorem Keeps.runEach (h : Keeps recorded runner) (c : ObjectClass) (options : Options) (queries : List Query)
    (result : SearchResult) (memory : Distinct) (w : World × Record) :
    (recorded.runEach c options queries result memory w).mapResult unrecorded =
      runner.runEach c options queries result memory w.1 := by
  induction queries generalizing result memory w with
  | nil => rfl
  | cons q rest ih =>
    unfold QueryRunner.runEach
    rw [← h.execute, Delivery.distinct_mapResult, Delivery.andThen_mapResult, Delivery.mapResult_andThen]
    congr 1
    funext ended
    obtain ⟨⟨outcome, w'⟩, memory'⟩ := ended
    cases outcome with
    | error e => rfl
    | ok result' =>
      dsimp only [Prod.map, unrecorded, id]
      split
      · exact ih result' memory' w'
      · rfl

theorem Keeps.searcher (h : Keeps recorded runner) (c : ObjectClass) (filter? : Option Filter)
    (options : Options) (w : World × Record) :
    (recorded.searcher c filter? options w).mapResult unrecorded = runner.searcher c filter? options w.1 := by
  unfold QueryRunner.searcher
  rw [h.translator]
  match runner.translator c options w.1 filter? with
  | [] => exact h.execute c none options w
  | [q] => exact h.execute c (some q) options w
  | q :: r :: rest => exact h.runEach c options (q :: r :: rest) {} {} w

variable (runner)

theorem keeps_recorded : Keeps runner.recorded runner where
  translator _ _ _ _ := rfl
  execute _ _ _ w := Delivery.mapResult_noting w.2 _

end QueryRunner

namespace Delivery

variable {World ρ σ : Type} {handler : Handler ConnectorObject σ}

/-- What holds of the record and the state of a handler, and is kept when an object is handed over, holds
in the end. -/
theorem run_noting (Kept : List ConnectorObject → σ → Prop)
    (hand : ∀ {passed s} o, Kept passed s → Kept (passed ++ [o]) ((handler o).run s).2)
    (d : Delivery ConnectorObject (ρ × World)) {passed : List ConnectorObject} {s : σ}
    (h : Kept passed s) :
    Kept (((d.noting passed).run handler).run s).1.2.2 (((d.noting passed).run handler).run s).2 := by
  induction d generalizing passed s with
  | done r => exact h
  | pass o next ih => exact ih _ (hand o h)

/-- Where repetitions are dropped, what is kept may depend on the Uids seen; an object with one of them is
passed, but not handed over. -/
theorem run_distinct_noting (Kept : List ConnectorObject → List Uid → σ → Prop)
    (repeated : ∀ {passed seen s} o, Kept passed seen s → o.uid ∈ seen → Kept (passed ++ [o]) seen s)
    (hand : ∀ {passed seen s} o, Kept passed seen s → o.uid ∉ seen →
      Kept (passed ++ [o]) (o.uid :: seen) ((handler o).run s).2)
    (d : Delivery ConnectorObject (ρ × World)) {passed : List ConnectorObject} {memory : Distinct} {s : σ}
    (h : Kept passed memory.seen s) :
    Kept ((((d.noting passed).distinct memory).run handler).run s).1.1.2.2
      ((((d.noting passed).distinct memory).run handler).run s).1.2.seen
      ((((d.noting passed).distinct memory).run handler).run s).2 := by
  induction d generalizing passed memory s with
  | done r => exact h
  | pass o next ih =>
    unfold noting distinct
    split
    · next hseen => exact ih true (repeated o h hseen)
    · next hseen => exact ih _ (hand o h hseen)

end Delivery

namespace QueryRunner

variable {World Query σ : Type} {runner : QueryRunner World Query} {handler : Handler ConnectorObject σ}

theorem run_runEach_cons {w : World} (c : ObjectClass) (options : Options) (q : Query) (rest : List Query)
    (result : SearchResult) (memory : Distinct) (s : σ) :
    ((runner.runEach c options (q :: rest) result memory w).run handler).run s =
      match (((runner.execute c (some q) options w).distinct memory).run handler).run s with
      | (((.error e, w), _), s) => ((.error e, w), s)
      | (((.ok result, w), memory), s) =>
        if memory.stillHandling then ((runner.runEach c options rest result memory w).run handler).run s
        else ((.ok result, w), s) := by
  conv_lhs => unfold runEach
  rw [Delivery.run_andThen, StateT.run_bind]
  rcases (((runner.execute c (some q) options w).distinct memory).run handler).run s with
    ⟨⟨⟨outcome, w'⟩, memory'⟩, s'⟩
  cases outcome with
  | error e => rfl
  | ok result' =>
    change ((if memory'.stillHandling then _ else _ : Delivery _ _).run handler).run s' = _
    dsimp only
    split
    · rfl
    · rfl

theorem run_runEach (runner : QueryRunner World Query) (Kept : List ConnectorObject → List Uid → σ → Prop)
    (repeated : ∀ {passed seen s} o, Kept passed seen s → o.uid ∈ seen → Kept (passed ++ [o]) seen s)
    (hand : ∀ {passed seen s} o, Kept passed seen s → o.uid ∉ seen →
      Kept (passed ++ [o]) (o.uid :: seen) ((handler o).run s).2)
    (c : ObjectClass) (options : Options) (queries : List Query) (result : SearchResult)
    {memory : Distinct} {w : World × List ConnectorObject} {s : σ} (h : Kept w.2 memory.seen s) :
    ∃ seen, Kept (((runner.recorded.runEach c options queries result memory w).run handler).run s).1.2.2 seen
      (((runner.recorded.runEach c options queries result memory w).run handler).run s).2 := by
  induction queries generalizing result memory w s with
  | nil => exact ⟨memory.seen, h⟩
  | cons q rest ih =>
    have hq := Delivery.run_distinct_noting Kept repeated hand (runner.execute c (some q) options w.1) h
    rw [run_runEach_cons]
    simp only [recorded] at hq ⊢
    generalize (((Delivery.noting w.2 (runner.execute c (some q) options w.1)).distinct memory).run
      handler).run s = ended at hq ⊢
    obtain ⟨⟨⟨outcome, w'⟩, memory'⟩, s'⟩ := ended
    cases outcome with
    | error e => exact ⟨memory'.seen, hq⟩
    | ok result' =>
      dsimp only
      split
      · exact ih result' hq
      · exact ⟨memory'.seen, hq⟩

end QueryRunner

namespace Hosted

variable {World Query σ : Type}

def rechecking (normal : ConnectorObject → ConnectorObject) (filter? : Option Filter) (options : Options)
    (handler : Handler ConnectorObject σ) : Handler ConnectorObject σ := fun o =>
  if filter?.all fun f => f.accepts (normal o) then handler (options.reduce (normal o))
  else pure true

theorem run_refine {ρ : Type} (n : Normalization) (filter? : Option Filter) (options : Options)
    (d : Delivery ConnectorObject ρ) (handler : Handler ConnectorObject σ) :
    (refine n filter? options d).run handler = d.run (rechecking n.onObject filter? options handler) := by
  rw [refine_eq, Delivery.run_mapItems, Delivery.run_filterItems]
  rfl

/-- What was delivered comes from some of the objects passed, in their order. -/
structure ComesFrom (normal : ConnectorObject → ConnectorObject) (filter? : Option Filter) (options : Options)
    (passed sources delivered : List ConnectorObject) : Prop where
  in_order : sources.Sublist passed
  refined : delivered = sources.map fun o => options.reduce (normal o)
  accepted : ∀ o ∈ sources, (filter?.all fun f => f.accepts (normal o)) = true

namespace ComesFrom

variable {normal : ConnectorObject → ConnectorObject} {filter? : Option Filter} {options : Options}
  {passed sources delivered : List ConnectorObject} {o : ConnectorObject}

theorem nil : ComesFrom normal filter? options [] [] [] := ⟨.slnil, rfl, by simp⟩

theorem dropped (h : ComesFrom normal filter? options passed sources delivered) (o : ConnectorObject) :
    ComesFrom normal filter? options (passed ++ [o]) sources delivered :=
  ⟨h.in_order.trans (List.sublist_append_left passed [o]), h.refined, h.accepted⟩

theorem handed (h : ComesFrom normal filter? options passed sources delivered)
    (ho : (filter?.all fun f => f.accepts (normal o)) = true) :
    ComesFrom normal filter? options (passed ++ [o]) (sources ++ [o])
      (delivered ++ [options.reduce (normal o)]) := by
  refine ⟨h.in_order.append (.refl [o]), by rw [h.refined, List.map_append]; rfl, fun p hp => ?_⟩
  rcases List.mem_append.1 hp with hp | hp
  · exact h.accepted p hp
  · exact List.mem_singleton.1 hp ▸ ho

end ComesFrom

/-- What holds of several queries while they run: all objects handed on have different Uids, and those have
been seen. -/
structure ComesFromSeen (normal : ConnectorObject → ConnectorObject) (filter? : Option Filter) (options : Options)
    (passed : List ConnectorObject) (seen : List Uid) (sources delivered : List ConnectorObject) : Prop
    extends ComesFrom normal filter? options passed sources delivered where
  distinct : (sources.map (·.uid)).Nodup
  known : ∀ o ∈ sources, o.uid ∈ seen

namespace ComesFromSeen

variable {normal : ConnectorObject → ConnectorObject} {filter? : Option Filter} {options : Options} {seen : List Uid}
  {passed sources delivered : List ConnectorObject} {o : ConnectorObject}

theorem unseen (h : ComesFromSeen normal filter? options passed seen sources delivered) (u : Uid) :
    ComesFromSeen normal filter? options passed (u :: seen) sources delivered :=
  { h with known := fun p hp => List.mem_cons_of_mem u (h.known p hp) }

theorem dropped (h : ComesFromSeen normal filter? options passed seen sources delivered) (o : ConnectorObject) :
    ComesFromSeen normal filter? options (passed ++ [o]) seen sources delivered :=
  ⟨h.toComesFrom.dropped o, h.distinct, h.known⟩

theorem handed (h : ComesFromSeen normal filter? options passed seen sources delivered) (hnew : o.uid ∉ seen)
    (ho : (filter?.all fun f => f.accepts (normal o)) = true) :
    ComesFromSeen normal filter? options (passed ++ [o]) (o.uid :: seen) (sources ++ [o])
      (delivered ++ [options.reduce (normal o)]) := by
  refine ⟨h.toComesFrom.handed ho, ?_, fun p hp => ?_⟩
  · rw [List.map_append, List.map_singleton]
    refine List.nodup_append.2 ⟨h.distinct, List.nodup_singleton _, fun u hu v hv he => ?_⟩
    obtain ⟨p, hp, rfl⟩ := List.mem_map.1 hu
    rw [List.mem_singleton] at hv
    exact hnew (hv ▸ he ▸ h.known p hp)
  · rcases List.mem_append.1 hp with hp | hp
    · exact List.mem_cons_of_mem _ (h.known p hp)
    · exact List.mem_singleton.1 hp ▸ List.mem_cons_self

end ComesFromSeen

variable (normal : ConnectorObject → ConnectorObject) (filter? : Option Filter) (options : Options)

theorem run_noting_rechecking {ρ : Type} (handler : Handler ConnectorObject σ)
    (d : Delivery ConnectorObject (ρ × World)) (s : σ) :
    let ended := ((d.noting []).run (rechecking normal filter? options handler.recording)).run (s, [])
    ∃ sources, ComesFrom normal filter? options ended.1.2.2 sources ended.2.2 := by
  refine Delivery.run_noting (fun passed (kept : σ × List ConnectorObject) =>
    ∃ sources, ComesFrom normal filter? options passed sources kept.2) (fun o ⟨sources, h⟩ => ?_) d ⟨[], .nil⟩
  unfold rechecking
  split
  · next ho => exact ⟨sources ++ [o], h.handed ho⟩
  · exact ⟨sources, h.dropped o⟩

theorem run_runEach_rechecking (runner : QueryRunner World Query) (handler : Handler ConnectorObject σ)
    (c : ObjectClass) (asked : Options) (queries : List Query) (w : World) (s : σ) :
    let ended := ((runner.recorded.runEach c asked queries {} {} (w, [])).run
      (rechecking normal filter? options handler.recording)).run (s, [])
    ∃ seen sources, ComesFromSeen normal filter? options ended.1.2.2 seen sources ended.2.2 := by
  refine QueryRunner.run_runEach runner (fun passed seen (kept : σ × List ConnectorObject) =>
      ∃ sources, ComesFromSeen normal filter? options passed seen sources kept.2)
    (fun o ⟨sources, h⟩ _ => ⟨sources, h.dropped o⟩) (fun o ⟨sources, h⟩ hnew => ?_) c asked queries {}
    ⟨[], .nil, List.nodup_nil, by simp⟩
  unfold rechecking
  split
  · next ho => exact ⟨sources ++ [o], h.handed hnew ho⟩
  · exact ⟨sources, (h.dropped o).unseen o.uid⟩

theorem run_searcher_rechecking (runner : QueryRunner World Query) (handler : Handler ConnectorObject σ)
    (c : ObjectClass) (asked : Options) (w : World) (s : σ) :
    let ended := ((runner.recorded.searcher c filter? asked (w, [])).run
      (rechecking normal filter? options handler.recording)).run (s, [])
    ∃ sources, ComesFrom normal filter? options ended.1.2.2 sources ended.2.2 ∧
      (1 < (runner.translator c asked w filter?).length → (sources.map (·.uid)).Nodup) := by
  unfold QueryRunner.searcher
  simp only [QueryRunner.recorded]
  match runner.translator c asked w filter? with
  | [] =>
    obtain ⟨sources, h⟩ := run_noting_rechecking normal filter? options handler (runner.execute c none asked w) s
    exact ⟨sources, h, fun hl => absurd hl (by simp)⟩
  | [q] =>
    obtain ⟨sources, h⟩ := run_noting_rechecking normal filter? options handler (runner.execute c (some q) asked w) s
    exact ⟨sources, h, fun hl => absurd hl (by simp)⟩
  | q :: r :: rest =>
    obtain ⟨_, sources, h⟩ := run_runEach_rechecking normal filter? options runner handler c asked (q :: r :: rest) w s
    exact ⟨sources, h.toComesFrom, fun _ => h.distinct⟩

/-- Searched with a record beside the world, a system is searched as it is. -/
theorem search_keeps {Record : Type} {runner : QueryRunner World Query}
    {recorded : QueryRunner (World × Record) Query} (hkeeps : recorded.Keeps runner) {h : Hosted World} {w : World}
    (hsearch : h.connector.search? w = some runner.searcher) (c : ObjectClass) (filter? : Option Filter)
    (options : Options) (record : Record) :
    let normalFilter? := filter?.map (h.normalFilter c w)
    (refine (h.normalization c w) normalFilter? options
        (recorded.searcher c normalFilter? (options.coveringFilter normalFilter?) (w, record))).mapResult unrecorded =
      h.search c filter? options w := by
  intro normalFilter?
  rw [refine_eq, Delivery.mapResult_mapItems, Delivery.mapResult_filterItems, hkeeps.searcher, ← refine_eq]
  simp only [search, hsearch, onFilter_normalization]
  rfl

/-- Whatever a connector passes, the caller is handed some of those objects, in order: each is accepted in its
normal form and then reduced. Several queries never lead to two objects with one Uid. -/
theorem search_rechecked {runner : QueryRunner World Query} {h : Hosted World} {w : World}
    (hsearch : h.connector.search? w = some runner.searcher) (c : ObjectClass) (filter? : Option Filter)
    (options : Options) (handler : Handler ConnectorObject σ) (s : σ) :
    let normalFilter? := filter?.map (h.normalFilter c w)
    let asked := options.coveringFilter normalFilter?
    ∃ outcome w' passed s' sources delivered,
      ((h.search c filter? options w).run handler).run s = ((outcome, w'), s') ∧
      ((refine (h.normalization c w) normalFilter? options
        (runner.recorded.searcher c normalFilter? asked (w, []))).run handler.recording).run (s, []) =
          ((outcome, w', passed), s', delivered) ∧
      ComesFrom (h.normalObject c w) normalFilter? options passed sources delivered ∧
      (1 < (runner.translator c asked w normalFilter?).length → (sources.map (·.uid)).Nodup) := by
  intro normalFilter? asked
  obtain ⟨sources, hfrom, hdistinct⟩ :=
    run_searcher_rechecking (h.normalObject c w) normalFilter? options runner handler c asked w s
  rw [← search_keeps runner.keeps_recorded hsearch c filter? options [], Delivery.run_mapResult,
    Delivery.run_recording handler _ s []]
  rw [← onObject_normalization, ← run_refine] at hfrom
  exact ⟨_, _, _, _, sources, _, rfl, rfl, hfrom, hdistinct⟩

def insistent : QueryRunner Unit Filter where
  translator _ _ _ filter? := ({} : Dialect).language.translate filter?
  execute _ _ _ w := .regardless (.ok {}, w) staff

/-- Two queries pass all objects twice, and those accepted are delivered once. -/
theorem search_rechecked_insistent :
    let h : Hosted Unit := ⟨default, { Connector.bare with search? := fun _ => some insistent.searcher }⟩
    h.connector.search? () = some insistent.searcher ∧
    ∃ sources, ComesFrom id (some annOrRed) {} (staff ++ staff) sources staff ∧
      (sources.map (·.uid)).Nodup := by
  intro h
  obtain ⟨outcome, w', passed, s', sources, delivered, -, hrecorded, hfrom, hdistinct⟩ :=
    @search_rechecked _ _ _ insistent h () rfl .account (some annOrRed) {} (Handler.upTo none) []
  cases hrecorded
  exact ⟨rfl, sources, hfrom, hdistinct (by decide)⟩

end Hosted

end Provisioning
