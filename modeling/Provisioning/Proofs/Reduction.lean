import Provisioning.Normalizer.Rule
import Provisioning.Proofs.Lookups
import Provisioning.Proofs.Scan

/-! Reduction at the source. A system that is asked for some attributes only may leave out the others, and
the caller must not notice: what the filter reads is asked for as well, the Uid and the name stay in any
case, and a normalizer that keeps names looks at one attribute at a time. So a system that passes reduced
objects is searched with the same result as one that passes them whole: `search_of_reducing`. -/

namespace Provisioning

theorem Options.restriction?_eq_some_iff {options : Options} {names : List String} :
    options.restriction? = some names ↔ options.attributesToGet? = some names ∧ names ≠ [] := by
  unfold restriction?
  rw [Option.filter_eq_some_iff]
  simp

/-- Where answers are reduced, the connector is asked for what the filter reads as well. -/
theorem Options.restriction?_coveringFilter {options : Options} {names : List String}
    (h : options.restriction? = some names) (f : Filter) :
    (options.coveringFilter (some f)).restriction? = some (Filter.addNames names f.attributeNames) := by
  have he : options.coveringFilter (some f) =
      options.withAttributesToGet (Filter.addNames names f.attributeNames) := by
    unfold coveringFilter
    rw [h]
    rfl
  rw [he, restriction?_eq_some_iff]
  refine ⟨rfl, fun hempty => ?_⟩
  obtain ⟨n, rest, rfl⟩ := List.exists_cons_of_ne_nil (restriction?_eq_some_iff.1 h).2
  have hany := Filter.any_addNames (n :: rest) f.attributeNames n
  rw [hempty, List.any_cons, sameName_refl] at hany
  cases hany

/-- Where answers are reduced, the connector is asked for the names that the caller wants and those that
the filter reads. -/
theorem Options.reduce_coveringFilter {options : Options} {names : List String}
    (h : options.restriction? = some names) (filter? : Option Filter) :
    ∃ asked : List String, (∀ o, (options.coveringFilter filter?).reduce o = o.retain asked) ∧
      (∀ name ∈ names, asked.any (sameName name) = true) ∧
      ∀ f, filter? = some f → ∀ a ∈ f.leaves, asked.any (sameName a.name) = true := by
  have hown : ∀ name ∈ names, names.any (sameName name) = true := fun name hname =>
    List.any_eq_true.2 ⟨name, hname, sameName_refl name⟩
  cases filter? with
  | none =>
    refine ⟨names, fun o => ?_, hown, fun f hf => nomatch hf⟩
    rw [show options.coveringFilter none = options by unfold coveringFilter; rw [h], reduce_of_restricted h]
  | some f =>
    refine ⟨Filter.addNames names f.attributeNames, fun o => ?_, fun name hname => ?_, fun g hg a ha => ?_⟩
    · exact reduce_of_restricted (restriction?_coveringFilter h f) o
    · rw [Filter.any_addNames, hown name hname, Bool.true_or]
    · cases hg
      rw [Filter.any_addNames, Filter.any_attributeNames, Bool.or_eq_true]
      exact .inr (List.any_eq_true.2 ⟨a, ha, sameName_refl a.name⟩)

/-- A system that passes those of its objects that a query selects, until it is told to stop. -/
structure Store (World Query : Type) where
  translator : ObjectClass → Options → World → Option Filter → List Query
  selects : ObjectClass → Option Query → ConnectorObject → Bool
  ending : ObjectClass → Option Query → Options → World → Outcome SearchResult × World
  objects : List ConnectorObject

namespace QueryRunner

variable {World Query : Type}

theorem only_runEach {runner : QueryRunner World Query} {P : ConnectorObject → Prop}
    (h : ∀ c query? options w, (runner.execute c query? options w).Only P) (c : ObjectClass)
    (options : Options) (queries : List Query) (result : SearchResult) (memory : Distinct) (w : World) :
    (runner.runEach c options queries result memory w).Only P := by
  induction queries generalizing result memory w with
  | nil => trivial
  | cons q rest ih =>
    unfold runEach
    refine ((h c (some q) options w).distinct memory).andThen fun ended => ?_
    obtain ⟨⟨outcome, w'⟩, memory'⟩ := ended
    cases outcome with
    | error e => trivial
    | ok result' =>
      dsimp only
      split
      · exact ih result' memory' w'
      · trivial

theorem only_searcher {runner : QueryRunner World Query} {P : ConnectorObject → Prop}
    (h : ∀ c query? options w, (runner.execute c query? options w).Only P) (c : ObjectClass)
    (filter? : Option Filter) (options : Options) (w : World) :
    (runner.searcher c filter? options w).Only P := by
  unfold searcher
  split
  · exact h c none options w
  · exact h c (some _) options w
  · exact only_runEach h c options _ {} {} w

end QueryRunner

namespace Store

variable {World Query : Type} (s : Store World Query)

def runner (shape : Options → ConnectorObject → ConnectorObject) : QueryRunner World Query where
  translator := s.translator
  execute c query? options w :=
    .untilStopped (s.ending c query? options w) ((s.objects.filter (s.selects c query?)).map (shape options))

def whole : QueryRunner World Query := s.runner fun _ o => o

def reducing : QueryRunner World Query := s.runner Options.reduce

variable {s} {shape : Options → ConnectorObject → ConnectorObject}

theorem execute_runner (c : ObjectClass) (query? : Option Query) (options : Options) (w : World) :
    (s.runner shape).execute c query? options w = (s.whole.execute c query? options w).mapItems (shape options) := by
  simp only [runner, whole, List.map_id', Delivery.untilStopped_map]

theorem runEach_runner (hs : ∀ options o, (shape options o).uid = o.uid) (c : ObjectClass)
    (options : Options) (queries : List Query) (result : SearchResult) (memory : Distinct) (w : World) :
    (s.runner shape).runEach c options queries result memory w =
      (s.whole.runEach c options queries result memory w).mapItems (shape options) := by
  induction queries generalizing result memory w with
  | nil => rfl
  | cons q rest ih =>
    unfold QueryRunner.runEach
    rw [Delivery.andThen_mapItems, execute_runner, Delivery.distinct_mapItems (hs options)]
    congr 1
    funext ended
    obtain ⟨⟨outcome, w'⟩, memory'⟩ := ended
    cases outcome with
    | error e => rfl
    | ok result' =>
      dsimp only
      split
      · exact ih result' memory' w'
      · rfl

/-- To search objects in some shape is to search them as they are and give them the shape afterwards. -/
theorem searcher_runner (hs : ∀ options o, (shape options o).uid = o.uid) (c : ObjectClass)
    (filter? : Option Filter) (options : Options) (w : World) :
    (s.runner shape).searcher c filter? options w =
      (s.whole.searcher c filter? options w).mapItems (shape options) := by
  have htranslator : s.whole.translator = (s.runner shape).translator := rfl
  unfold QueryRunner.searcher
  rw [htranslator]
  split
  · exact execute_runner c none options w
  · exact execute_runner c (some _) options w
  · exact runEach_runner hs c options _ {} {} w

theorem only_searcher_whole (c : ObjectClass) (filter? : Option Filter) (options : Options) (w : World) :
    (s.whole.searcher c filter? options w).Only (· ∈ s.objects) := by
  refine QueryRunner.only_searcher (fun c query? options w => Delivery.only_untilStopped (fun o ho => ?_) _) ..
  obtain ⟨p, hp, rfl⟩ := List.mem_map.1 ho
  exact (List.mem_filter.1 hp).1

end Store

namespace Hosted

variable {World Query : Type}

/-- What a reduction to some attributes leaves of an object, normalized, agrees with the normalized object
on those attributes, the Uid and the name. -/
theorem get?_onObject_retain {n : Normalization} (hn : ∀ a, (n.onAttribute a).name = a.name)
    {o : ConnectorObject} (ho : o.HasUsualUid) {asked : List String} {name : String}
    (hname : (uidName :: nameName :: asked).any (sameName name) = true) :
    (n.onObject (o.retain asked)).attributes.get? name = (n.onObject o).attributes.get? name := by
  rw [Normalization.get?_onObject hn, Normalization.get?_onObject hn, ho.get?_retain, if_pos hname]

theorem retain_onObject_retain {n : Normalization} (hn : ∀ a, (n.onAttribute a).name = a.name)
    {o : ConnectorObject} (ho : o.HasUsualUid) {names asked : List String}
    (hasked : ∀ name ∈ names, asked.any (sameName name) = true) :
    (n.onObject (o.retain asked)).retain names = (n.onObject o).retain names := by
  have huid : (n.onObject (o.retain asked)).attributes.get? uidName = (n.onObject o).attributes.get? uidName :=
    get?_onObject_retain hn ho rfl
  refine ConnectorObject.retain_congr ?_ (Normalization.uid_onObject_congr rfl huid) fun name hname => ?_
  · rw [Normalization.objectClass_onObject, Normalization.objectClass_onObject]
    rfl
  · refine get?_onObject_retain hn ho ?_
    rw [List.any_cons, List.any_cons]
    rcases List.mem_cons.1 hname with rfl | hname
    · simp [sameName_refl]
    · simp [hasked name hname]

theorem accepts_onObject_retain {n : Normalization} (hn : ∀ a, (n.onAttribute a).name = a.name)
    {o : ConnectorObject} (ho : o.HasUsualUid) {f : Filter} {asked : List String}
    (hasked : ∀ a ∈ f.leaves, asked.any (sameName a.name) = true) :
    f.accepts (n.onObject (o.retain asked)) = f.accepts (n.onObject o) := by
  refine Filter.accepts_congr fun a ha => get?_onObject_retain hn ho ?_
  rw [List.any_cons, List.any_cons, hasked a ha, Bool.or_true, Bool.or_true]

/-- To recheck objects and reduce them needs no more of them than the connector is asked for. -/
theorem refine_reduced {ρ : Type} {n : Normalization} (hn : ∀ a, (n.onAttribute a).name = a.name)
    (filter? : Option Filter) (options : Options) {d : Delivery ConnectorObject ρ}
    (hd : d.Only ConnectorObject.HasUsualUid) :
    refine n filter? options (d.mapItems (options.coveringFilter filter?).reduce) = refine n filter? options d := by
  have key : ∀ o : ConnectorObject, o.HasUsualUid →
      (filter?.all fun f => f.accepts (n.onObject ((options.coveringFilter filter?).reduce o))) =
          (filter?.all fun f => f.accepts (n.onObject o)) ∧
        options.reduce (n.onObject ((options.coveringFilter filter?).reduce o)) = options.reduce (n.onObject o) := by
    intro o ho
    cases hnames : options.restriction? with
    | none =>
      rw [Options.coveringFilter_of_unrestricted hnames, Options.reduce_of_unrestricted hnames]
      exact ⟨rfl, rfl⟩
    | some names =>
      obtain ⟨asked, hreduce, hown, hread⟩ := Options.reduce_coveringFilter hnames filter?
      rw [hreduce, Options.reduce_of_restricted hnames, Options.reduce_of_restricted hnames]
      refine ⟨?_, retain_onObject_retain hn ho hown⟩
      cases filter? with
      | none => rfl
      | some f => exact accepts_onObject_retain hn ho (hread f rfl)
  rw [refine_eq, refine_eq, Delivery.filterItems_mapItems, Delivery.mapItems_mapItems,
    Delivery.filterItems_congr hd fun o ho => (key o ho).1,
    Delivery.mapItems_congr (hd.filterItems _) fun o ho => (key o ho).2]

/-- A connector that reduces its objects to what it is asked for is searched with the same result as one that
passes them whole. -/
theorem search_of_reducing {h₁ h₂ : Hosted World} {c : ObjectClass} {w : World} {s : Store World Query}
    (hwhole : h₁.connector.search? w = some s.whole.searcher)
    (hreducing : h₂.connector.search? w = some s.reducing.searcher)
    (hnormalizer : h₁.connector.normalizer? w = h₂.connector.normalizer? w)
    (hkeeps : ∀ a, (h₁.normalAttribute c w a).name = a.name)
    (hbuilt : ∀ o ∈ s.objects, (∃ d : Draft, d.build = .ok o) ∧
      (o.attributes.get? uidName).map Attribute.name = some uidName)
    (filter? : Option Filter) (options : Options) :
    h₁.search c filter? options w = h₂.search c filter? options w := by
  have hn : h₂.normalization c w = h₁.normalization c w := by rw [normalization, ← hnormalizer, normalization]
  have hregular : ∀ o ∈ s.objects, o.HasUsualUid := by
    intro o ho
    obtain ⟨⟨d, hd⟩, hname⟩ := hbuilt o ho
    exact ConnectorObject.hasUsualUid_of_build hd hname
  simp only [search, hwhole, hreducing, hn]
  rw [Store.reducing, Store.searcher_runner Options.uid_reduce]
  exact (refine_reduced (n := h₁.normalization c w) hkeeps _ options
    ((Store.only_searcher_whole ..).mono hregular)).symm

def ann : Draft :=
  ((Draft.empty.withUid "u1").withName "Ann").withAttributes
    [.single "Mail" (.string "ann@x"), .single "Team" (.string "Red")]

def accounts : Store Unit Filter where
  translator _ _ _ filter? := ({} : Dialect).language.translate filter?
  selects c query? o := o.objectClass == c && query?.all fun q => q.accepts o
  ending _ _ _ w := (.ok {}, w)
  objects := [⟨.account, ⟨"u1"⟩, ann.attributes⟩]

def lowering (searcher : Searcher Unit) : Hosted Unit :=
  ⟨default, { Connector.bare with
    search? := fun _ => some searcher
    normalizer? := fun _ => some fun _ a => a.mapStrings foldCase }⟩

/-- Only the team is asked for, but the filter reads the mail address. -/
theorem search_of_reducing_team :
    let filter : Filter := .leaf .equals (.single "mail" (.string "ann@x"))
    let options : Options := { attributesToGet? := some ["team"] }
    (∀ o ∈ accounts.objects, (∃ d : Draft, d.build = .ok o) ∧
      (o.attributes.get? uidName).map Attribute.name = some uidName) ∧
    (lowering accounts.whole.searcher).search .account (some filter) options () =
      (lowering accounts.reducing.searcher).search .account (some filter) options () ∧
    ((lowering accounts.reducing.searcher).search .account (some filter) options ()).passed.map
      (·.attributes.names) = [["__NAME__", "__UID__", "Team"]] := by
  intro filter options
  have hbuilt : ∀ o ∈ accounts.objects, (∃ d : Draft, d.build = .ok o) ∧
      (o.attributes.get? uidName).map Attribute.name = some uidName := by
    intro o ho
    obtain rfl := List.mem_singleton.1 ho
    exact ⟨⟨ann, rfl⟩, by decide⟩
  exact ⟨hbuilt, @search_of_reducing _ _ (lowering accounts.whole.searcher) (lowering accounts.reducing.searcher)
    .account () accounts rfl rfl rfl (fun _ => rfl) hbuilt _ _, by decide +kernel⟩

end Hosted

end Provisioning
