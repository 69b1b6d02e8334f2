import Provisioning.Proofs.Frame
import Provisioning.Proofs.Identity
import Provisioning.Proofs.Reduction
import Provisioning.Proofs.Stopping
import Provisioning.Proofs.Targets

/-! Retrieval of one object. It is a search for a Uid whose handler keeps what it is handed and wants no more.
Whatever the connector passes, what is kept goes by the Uid that was asked for; and a connector that answers its
queries truthfully, until it is told to stop, leads to the object with that Uid if there is one:
`get_finds_object`. Objects that the queries find beside it are held back by the recheck, and the connector goes
on after them. -/

namespace Provisioning

namespace Delivery

variable {ρ : Type}

theorem Heeds.run_keepLast {P : ρ → Prop} {d : Delivery ConnectorObject ρ} (hd : d.Heeds) (hends : d.EndsIn P) :
    ∃ r, P r ∧ (d.run Hosted.keepLast).run none = (r, d.passed.head?) := by
  cases d with
  | done r => exact ⟨r, hends, rfl⟩
  | pass o next =>
    obtain ⟨r, hr⟩ := hd.1
    refine ⟨r, ?_, ?_⟩
    · have hstopped := hends false
      rwa [hr] at hstopped
    · rw [run_pass]
      change ((next false).run Hosted.keepLast).run (some o) = _
      rw [hr]
      rfl

end Delivery

namespace QueryRunner

variable {World Query : Type} {runner : QueryRunner World Query}
  {matching : Query → ConnectorObject → Bool} {objects : List ConnectorObject} {ready : World → Prop}

/-- While it is ready, a system answers every query with what the query finds among its objects, up to where
it is told to stop. -/
structure Obliges (runner : QueryRunner World Query) (matching : Query → ConnectorObject → Bool)
    (objects : List ConnectorObject) (ready : World → Prop) : Prop where
  passed : ∀ {w}, ready w → ∀ c query? options,
    (runner.execute c query? options w).passed = found matching objects c query?
  heeds : ∀ {w}, ready w → ∀ c query? options, (runner.execute c query? options w).Heeds
  ended : ∀ {w}, ready w → ∀ c query? options,
    (runner.execute c query? options w).EndsIn fun ended => (∃ result, ended.1 = .ok result) ∧ ready ended.2

theorem Obliges.serves (h : runner.Obliges matching objects ready) : runner.Serves matching objects ready where
  passed := h.passed
  finished hw c query? options := by
    obtain ⟨⟨result, hr⟩, hw'⟩ := (h.ended hw c query? options).finished
    exact ⟨result, _, Prod.ext hr rfl, hw'⟩

theorem Obliges.heeds_runEach (h : runner.Obliges matching objects ready) (c : ObjectClass) (options : Options)
    (queries : List Query) (result : SearchResult) (seen : List Uid) {w : World} (hw : ready w) :
    (runner.runEach c options queries result ⟨seen, true⟩ w).Heeds := by
  induction queries generalizing result seen w with
  | nil => trivial
  | cons q rest ih =>
    unfold runEach
    refine (h.heeds hw c (some q) options).distinct_andThen (fun ended seen => ?_) ?_
    · obtain ⟨_ | _, w'⟩ := ended <;> exact ⟨_, rfl⟩
    · obtain ⟨result', w', hfinished, hw'⟩ := h.serves.finished hw c (some q) options
      rw [Delivery.finished_distinct, hfinished]
      exact ih result' _ hw'

theorem Obliges.endsIn_runEach (h : runner.Obliges matching objects ready) (c : ObjectClass) (options : Options)
    (queries : List Query) (result : SearchResult) (memory : Distinct) {w : World} (hw : ready w) :
    (runner.runEach c options queries result memory w).EndsIn fun ended =>
      (∃ result, ended.1 = .ok result) ∧ ready ended.2 := by
  induction queries generalizing result memory w with
  | nil => exact ⟨⟨result, rfl⟩, hw⟩
  | cons q rest ih =>
    unfold runEach
    refine ((h.ended hw c (some q) options).distinct memory).andThen ?_
    rintro ⟨⟨outcome, w'⟩, memory'⟩ ⟨⟨result', rfl⟩, hw'⟩
    dsimp only
    split
    · exact ih result' memory' hw'
    · exact ⟨⟨result', rfl⟩, hw'⟩

theorem Obliges.searcher (h : runner.Obliges matching objects ready) (c : ObjectClass) (filter? : Option Filter)
    (options : Options) {w : World} (hw : ready w) :
    (runner.searcher c filter? options w).Heeds ∧
      (runner.searcher c filter? options w).EndsIn fun ended =>
        (∃ result, ended.1 = .ok result) ∧ ready ended.2 := by
  unfold QueryRunner.searcher
  split
  · exact ⟨h.heeds hw c none options, h.ended hw c none options⟩
  · exact ⟨h.heeds hw c (some _) options, h.ended hw c (some _) options⟩
  · exact ⟨h.heeds_runEach c options _ {} [] hw, h.endsIn_runEach c options _ {} {} hw⟩

end QueryRunner

/-! The Uid of what is found. -/

namespace ConnectorObject

theorem CarriesUid.accepts_iff {o : ConnectorObject} (ho : o.CarriesUid) {wanted : Attribute} {uid : Uid}
    (hn : wanted.name = uidName) (hu : wanted.uid? = some uid) :
    (Filter.leaf .equals wanted).accepts o = true ↔ o.uid = uid := by
  obtain ⟨a, ha, hau⟩ := ho
  rw [Filter.accepts_leaf, Filter.acceptsLeaf, hn, get?, ha, Option.any_some, Comparison.holds, Attribute.values,
    Attribute.values, Attribute.values?_of_uid? hu, Attribute.values?_of_uid? hau]
  change (decide (uid.value = o.uid.value) && true) = true ↔ o.uid = uid
  rw [Bool.and_true, decide_eq_true_iff, eq_comm, ← Uid.mk.injEq]

end ConnectorObject

namespace Normalization

variable {n : Normalization} {o : ConnectorObject}

theorem carriesUid_onObject (hname : ∀ a, (n.onAttribute a).name = a.name)
    (huid : ∀ a : Attribute, a.isUid = true → a.uid?.isSome → (n.onAttribute a).uid?.isSome) (ho : o.CarriesUid) :
    (n.onObject o).CarriesUid := by
  obtain ⟨c, normalizer?⟩ := n
  cases normalizer? with
  | none => exact ho
  | some g =>
    have hrespects : (Revision.map (g c)).RespectsUid := fun a =>
      ⟨by rw [Attribute.isNamed, Attribute.isNamed]; exact congrArg (sameName · uidName) (hname a), huid a⟩
    exact ho.revise hrespects

theorem uid?_onAttribute_toAttribute
    (huid : ∀ a : Attribute, a.isUid = true → a.uid?.isSome → (n.onAttribute a).uid?.isSome) (uid : Uid) :
    (n.onAttribute uid.toAttribute).uid? = some (n.onUid uid) := by
  obtain ⟨u, hu⟩ := Option.isSome_iff_exists.1 (huid uid.toAttribute (sameName_refl uidName) rfl)
  obtain ⟨c, normalizer?⟩ := n
  cases normalizer? with
  | none => rfl
  | some g => exact hu.trans (congrArg (some <| Option.getD · uid) hu).symm

theorem onFilter_leaf (n : Normalization) (c : Comparison) (a : Attribute) :
    n.onFilter (.leaf c a) = .leaf c (n.onAttribute a) := by
  obtain ⟨_, normalizer?⟩ := n
  cases normalizer? <;> rfl

/-- What the normalized search for a Uid accepts goes by the normalized Uid. -/
theorem uid_onObject_of_accepts (hname : ∀ a, (n.onAttribute a).name = a.name)
    (huid : ∀ a : Attribute, a.isUid = true → a.uid?.isSome → (n.onAttribute a).uid?.isSome) (ho : o.CarriesUid)
    {uid : Uid} (haccepts : (n.onFilter (.leaf .equals uid.toAttribute)).accepts (n.onObject o) = true) :
    (n.onObject o).uid = n.onUid uid := by
  rw [onFilter_leaf] at haccepts
  exact ((carriesUid_onObject hname huid ho).accepts_iff (hname uid.toAttribute)
    (uid?_onAttribute_toAttribute huid uid)).1 haccepts

end Normalization

namespace Hosted

variable {World Query : Type} {h : Hosted World} {w : World}

/-- The same connector with a record, kept beside its world, of all objects that its searches pass. -/
def recorded (h : Hosted World) : Hosted (World × List ConnectorObject) :=
  ⟨h.key, { h.connector.observed fun _ passed => passed with
    search? := fun w => (h.connector.search? w.1).map fun search c filter? options w =>
      (search c filter? options w.1).noting w.2 }⟩

theorem search?_recorded (h : Hosted World) (w : World) (passed : List ConnectorObject) :
    h.recorded.connector.search? (w, passed) = (h.connector.search? w).map fun search c filter? options w =>
      (search c filter? options w.1).noting w.2 := rfl

theorem search_recorded (h : Hosted World) (c : ObjectClass) (filter? : Option Filter) (options : Options) (w : World)
    (passed : List ConnectorObject) :
    (h.recorded.search c filter? options (w, passed)).mapResult unrecorded = h.search c filter? options w := by
  cases hs : h.connector.search? w with
  | none =>
    simp only [search, search?_recorded, hs, Option.map_none]
    rfl
  | some searcher =>
    simp only [search, search?_recorded, hs, Option.map_some, mapResult_refine, Delivery.mapResult_noting]
    rfl

theorem get_recorded (h : Hosted World) (c : ObjectClass) (uid : Uid) (options : Options) (w : World)
    (passed : List ConnectorObject) :
    unrecorded (h.recorded.get c uid options (w, passed)) = h.get c uid options w := by
  unfold get
  rw [← search_recorded h c _ options w passed, Delivery.run_mapResult]
  rfl

theorem get_recorded_of_some {searcher : Searcher World} (hs : h.connector.search? w = some searcher)
    (c : ObjectClass) (uid : Uid) (options : Options) :
    let n := h.normalization c w
    let f := n.onFilter (.leaf .equals uid.toAttribute)
    let ended := ((refine n (some f) options
      ((searcher c (some f) (options.coveringFilter (some f)) w).noting [])).run keepLast).run none
    h.recorded.get c uid options (w, []) = (ended.1.1.map fun _ => ended.2, ended.1.2) := by
  unfold get
  simp only [search, search?_recorded, hs, Option.map_some]
  rfl

theorem run_noting_keepLast {ρ : Type} (n : Normalization) (f : Filter) (options : Options)
    (d : Delivery ConnectorObject (ρ × World)) :
    let ended := ((refine n (some f) options (d.noting [])).run keepLast).run none
    ended.2 = (ended.1.2.2.filter fun o => f.accepts (n.onObject o)).getLast?.map fun o =>
      options.reduce (n.onObject o) := by
  intro ended
  unfold ended
  rw [run_refine]
  refine Delivery.run_noting (fun passed found? => found? = (passed.filter fun o =>
    f.accepts (n.onObject o)).getLast?.map fun o => options.reduce (n.onObject o)) (fun {passed s} o hs => ?_) d rfl
  unfold rechecking
  rw [List.filter_append, Option.all_some]
  by_cases ho : f.accepts (n.onObject o) = true
  · simp only [ho, if_true, List.filter_cons, List.filter_nil, List.getLast?_concat]
    rfl
  · simp only [ho, Bool.false_eq_true, if_false, List.filter_cons, List.filter_nil, List.append_nil]
    exact hs

/-- What is found is made of the last object, of those passed, that the recheck accepts. -/
theorem source_of_get {c : ObjectClass} {uid : Uid} {options : Options} {found : ConnectorObject}
    (hfound : (h.recorded.get c uid options (w, [])).1 = .ok (some found)) :
    let n := h.normalization c w
    let f := n.onFilter (.leaf .equals uid.toAttribute)
    ∃ o, ((h.recorded.get c uid options (w, [])).2.2.filter fun o => f.accepts (n.onObject o)).getLast? = some o ∧
      found = options.reduce (n.onObject o) := by
  intro n f
  cases hs : h.connector.search? w with
  | none =>
    unfold get at hfound
    simp only [search, search?_recorded, hs, Option.map_none] at hfound
    cases hfound
  | some searcher =>
    have hkept := run_noting_keepLast n f options (searcher c (some f) (options.coveringFilter (some f)) w)
    rw [get_recorded_of_some hs] at hfound ⊢
    generalize ((refine n (some f) options ((searcher c (some f) (options.coveringFilter (some f)) w).noting [])).run
      keepLast).run none = ended at hkept hfound ⊢
    obtain ⟨⟨outcome, w', passed⟩, found?⟩ := ended
    cases outcome with
    | error b => cases hfound
    | ok result =>
      obtain rfl : found? = some found := Except.ok.inj hfound
      obtain ⟨o, ho, hform⟩ := Option.map_eq_some_iff.1 hkept.symm
      exact ⟨o, ho, hform.symm⟩

section Served

variable {runner : QueryRunner World Query} {matching : Query → ConnectorObject → Bool}
  {objects : List ConnectorObject} {ready : World → Prop}

theorem filter_eq_toList_find? (hd : (objects.map (·.uid)).Nodup) {uid : Uid} {p : ConnectorObject → Bool}
    (hp : ∀ o, p o = true → o.uid = uid) : objects.filter p = (objects.find? p).toList := by
  induction objects with
  | nil => rfl
  | cons o rest ih =>
    obtain ⟨hnew, hrest⟩ := List.nodup_cons.1 hd
    by_cases ho : p o = true
    · have hnone : rest.filter p = [] := List.filter_eq_nil_iff.2 fun o' ho' hpo' =>
        hnew (List.mem_map.2 ⟨o', ho', (hp o' hpo').trans (hp o ho).symm⟩)
      rw [List.filter_cons_of_pos ho, List.find?_cons_of_pos ho, hnone]
      rfl
    · rw [List.filter_cons_of_neg ho, List.find?_cons_of_neg ho, ih hrest]

theorem head?_of_perm_toList {α : Type} {l : List α} {a? : Option α} (h : l.Perm a?.toList) : l.head? = a? := by
  cases a? with
  | none => rw [List.perm_nil.1 h]; rfl
  | some a => rw [List.perm_singleton.1 h]; rfl

theorem search_of_normalizer_none {searcher : Searcher World} (hsearch : h.connector.search? w = some searcher)
    (hnormalizer : h.connector.normalizer? w = none) (c : ObjectClass) (f : Filter) (options : Options) :
    h.search c (some f) options w =
      refine ⟨c, none⟩ (some f) options (searcher c (some f) (options.coveringFilter (some f)) w) := by
  have hn : h.normalization c w = ⟨c, none⟩ := by rw [normalization, hnormalizer]
  simp only [search, hsearch, hn]
  rfl

/-- A connector without a normalizer whose system obliges finds the object of the class with the Uid, if there is
one. -/
theorem get_of_obliges (hsearch : h.connector.search? w = some runner.searcher)
    (hnormalizer : h.connector.normalizer? w = none) (hobliges : runner.Obliges matching objects ready)
    (hready : ready w) (hdistinct : (objects.map (·.uid)).Nodup) (hcarries : ∀ o ∈ objects, o.CarriesUid)
    {c : ObjectClass} {uid : Uid} {options : Options}
    (hcovers : Covers (fun q o => matching q o = true) (some (.leaf .equals uid.toAttribute))
      (runner.translator c (options.coveringFilter (some (.leaf .equals uid.toAttribute))) w
        (some (.leaf .equals uid.toAttribute)))) :
    ∃ w', h.get c uid options w =
      (.ok ((objects.find? fun o => o.objectClass == c && o.uid = uid).map options.reduce), w') := by
  set f : Filter := .leaf .equals uid.toAttribute
  have hsearch' := search_of_normalizer_none hsearch hnormalizer c f options
  obtain ⟨hheeds, hends⟩ := hobliges.searcher c (some f) (options.coveringFilter (some f)) hready
  have hheeds' : (h.search c (some f) options w).Heeds := by
    rw [hsearch', refine_eq]
    exact (hheeds.filterItems _).mapItems _
  have hends' : (h.search c (some f) options w).EndsIn fun ended => ∃ result, ended.1 = .ok result := by
    rw [hsearch', refine_eq]
    exact ((hends.mono fun _ hended => hended.1).filterItems _).mapItems _
  obtain ⟨⟨outcome, w'⟩, ⟨result, rfl⟩, hrun⟩ := hheeds'.run_keepLast hends'
  have hpassed : (h.search c (some f) options w).passed.head? =
      (objects.find? fun o => o.objectClass == c && o.uid = uid).map options.reduce := by
    obtain ⟨hperm, -⟩ := filter_searcher_perm hobliges.serves hdistinct hready hcovers
    have hscan : (objects.filter fun o => o.objectClass == c && (some f).all fun f => f.accepts o) =
        (objects.find? fun o => o.objectClass == c && o.uid = uid).toList := by
      rw [← filter_eq_toList_find? hdistinct fun o ho => (by simpa using ho : _ ∧ o.uid = uid).2]
      refine List.filter_congr fun o ho => ?_
      rw [Option.all_some, Bool.eq_iff_iff, Bool.and_eq_true, Bool.and_eq_true, decide_eq_true_iff,
        (hcarries o ho).accepts_iff rfl rfl]
    have hobject : (⟨c, none⟩ : Normalization).onObject = id := rfl
    rw [hscan] at hperm
    rw [hsearch', passed_refine, List.head?_map, hobject, List.map_id, head?_of_perm_toList hperm]
  refine ⟨w', ?_⟩
  unfold get
  rw [hrun, hpassed]
  rfl

end Served

/-- What is found for a Uid is made of the last object that the recheck accepts, and goes by the normalized Uid
if that object carries its own. A connector that answers from a store leads to the object of the class with the
Uid, if there is one. -/
theorem get_finds_object (c : ObjectClass) (uid : Uid) (options : Options) :
    let wanted : Filter := .leaf .equals uid.toAttribute
    (∀ {World : Type} (h : Hosted World) (w : World),
      (∀ a, (h.normalAttribute c w a).name = a.name) →
      (∀ a : Attribute, a.isUid = true → a.uid?.isSome → (h.normalAttribute c w a).uid?.isSome) →
      let ended := h.recorded.get c uid options (w, [])
      unrecorded ended = h.get c uid options w ∧
      ∀ found, ended.1 = .ok (some found) →
        ∃ o, (ended.2.2.filter fun o =>
            (h.normalFilter c w wanted).accepts (h.normalObject c w o)).getLast? = some o ∧
          found = options.reduce (h.normalObject c w o) ∧ (o.CarriesUid → found.uid = h.normalUid c w uid)) ∧
    ∀ {World Query : Type} {h : Hosted World} {w : World} {runner : QueryRunner World Query}
      {matching : Query → ConnectorObject → Bool} {objects : List ConnectorObject} {ready : World → Prop},
      h.connector.search? w = some runner.searcher → h.connector.normalizer? w = none →
      runner.Obliges matching objects ready → ready w →
      (objects.map (·.uid)).Nodup → (∀ o ∈ objects, ∃ d : Draft, d.build = .ok o) →
      Covers (fun q o => matching q o = true) (some wanted)
        (runner.translator c (options.coveringFilter (some wanted)) w (some wanted)) →
      ∃ w', h.get c uid options w =
        (.ok ((objects.find? fun o => o.objectClass == c && o.uid = uid).map options.reduce), w') := by
  intro wanted
  constructor
  · intro World h w hname huid ended
    refine ⟨get_recorded h c uid options w [], fun found hfound => ?_⟩
    obtain ⟨o, hlast, rfl⟩ := source_of_get hfound
    refine ⟨o, hlast, rfl, fun ho => ?_⟩
    have haccepts : (h.normalFilter c w wanted).accepts (h.normalObject c w o) = true :=
      (List.mem_filter.1 (List.mem_of_getLast? hlast)).2
    rw [Options.uid_reduce]
    exact Normalization.uid_onObject_of_accepts (n := h.normalization c w) hname huid ho haccepts
  · intro World Query h w runner matching objects ready hsearch hnormalizer hobliges hready hdistinct hbuilt hcovers
    refine get_of_obliges hsearch hnormalizer hobliges hready hdistinct (fun o ho => ?_) hcovers
    obtain ⟨d, hd⟩ := hbuilt o ho
    exact Draft.carriesUid_of_build hd

def colleagues : List ConnectorObject :=
  [⟨.account, ⟨"u1"⟩, ((Draft.empty.withUid "u1").withName "ann").attributes⟩,
    ⟨.account, ⟨"u2"⟩, ((Draft.empty.withUid "u2").withName "bob").attributes⟩]

/-- Asks first for all Uids with a certain start, and only then for what is wanted. -/
def groping : QueryRunner Unit Filter where
  translator _ _ _ filter? := .leaf .startsWith (.single uidName (.string "u")) :: filter?.toList
  execute c query? _ w := .untilStopped (.ok {}, w)
    (QueryRunner.found (fun q o => q.accepts o) colleagues c query?)

theorem obliges_groping : groping.Obliges (fun q o => q.accepts o) colleagues fun _ => True where
  passed _ _ _ _ := Delivery.passed_untilStopped _ _
  heeds _ _ _ _ := Delivery.heeds_untilStopped _ _
  ended _ _ _ _ := Delivery.endsIn_untilStopped ⟨⟨_, rfl⟩, trivial⟩ _

/-- A connector that passes all it has is asked for a Uid in another spelling than the normal one; one that
finds the other account first is asked for the second. -/
theorem get_finds_object_second :
    let heedless : Hosted Unit := lowering fun _ _ _ w => .regardless (.ok {}, w) colleagues
    let asked : Hosted Unit := ⟨default, { Connector.bare with search? := fun _ => some groping.searcher }⟩
    (∀ a, (heedless.normalAttribute .account () a).name = a.name) ∧
    (∀ a : Attribute, a.isUid = true → a.uid?.isSome →
      (heedless.normalAttribute .account () a).uid?.isSome) ∧
    (∃ found, (heedless.get .account ⟨"U2"⟩ {} ()).1 = .ok (some found) ∧ found.uid = ⟨"u2"⟩) ∧
    (colleagues.map (·.uid)).Nodup ∧ (∀ o ∈ colleagues, ∃ d : Draft, d.build = .ok o) ∧
    (asked.get .account ⟨"u2"⟩ { attributesToGet? := some ["mail"] } ()).1 = .ok (colleagues.getLast?) := by
  intro heedless asked
  have hname : ∀ a, (heedless.normalAttribute .account () a).name = a.name := fun _ => rfl
  have huid : ∀ a : Attribute, a.isUid = true → a.uid?.isSome →
      (heedless.normalAttribute .account () a).uid?.isSome :=
    (Normalization.keepsChecked_mapStrings .account foldCase).holdsUid
  have hdistinct : (colleagues.map (·.uid)).Nodup := by decide
  have hbuilt : ∀ o ∈ colleagues, ∃ d : Draft, d.build = .ok o := by
    simp only [colleagues, List.forall_mem_cons]
    exact ⟨⟨(Draft.empty.withUid "u1").withName "ann", rfl⟩, ⟨(Draft.empty.withUid "u2").withName "bob", rfl⟩,
      by simp⟩
  refine ⟨hname, huid, ?_, hdistinct, hbuilt, ?_⟩
  · obtain ⟨hrecorded, hfound⟩ := (get_finds_object .account ⟨"U2"⟩ {}).1 heedless () hname huid
    have hended : (heedless.recorded.get .account ⟨"U2"⟩ {} ((), [])).1 = .ok colleagues.getLast? := by decide +kernel
    have hpassed : (heedless.recorded.get .account ⟨"U2"⟩ {} ((), [])).2.2 = colleagues := by decide +kernel
    obtain ⟨found, hlast⟩ : ∃ found, colleagues.getLast? = some found := ⟨_, rfl⟩
    rw [hlast] at hended
    obtain ⟨o, ho, -, hnormal⟩ := hfound found hended
    rw [hpassed] at ho
    obtain ⟨d, hd⟩ := hbuilt o (List.mem_filter.1 (List.mem_of_getLast? ho)).1
    refine ⟨found, ?_, hnormal (Draft.carriesUid_of_build hd)⟩
    rw [← hrecorded, unrecorded, hended]
  · have hcovers : Covers (fun q o => q.accepts o = true) (some (.leaf .equals (Uid.toAttribute ⟨"u2"⟩)))
        (groping.translator .account {} () (some (.leaf .equals (Uid.toAttribute ⟨"u2"⟩)))) :=
      .inr fun o ho => ⟨_, List.mem_cons_of_mem _ (List.mem_singleton_self _), ho⟩
    obtain ⟨w', hget⟩ := (get_finds_object .account ⟨"u2"⟩ { attributesToGet? := some ["mail"] }).2 (h := asked)
      (w := ()) rfl rfl obliges_groping trivial hdistinct hbuilt hcovers
    rw [hget]
    exact congrArg Except.ok (by decide +kernel)

end Hosted

end Provisioning
