import Provisioning.Normalizer.Rule
import Provisioning.Proofs.Lookups

/-! Identity. An object holds its Uid twice, on its own and as the value of an attribute. Reductions keep the two in
step. A change of the attributes may leave none that holds a Uid; then the object goes by the Uid it had, and its
attributes do not tell, until a reduction puts the attribute back: `carries_uid_unless_lost`. -/

namespace Provisioning

/-- What is made of an object on its way to a caller. -/
inductive Revision where
  | retain (names : List String)
  | map (f : Attribute → Attribute)

namespace Revision

/-- The same attributes go by the name of the Uid as before, and one that held a Uid does so still. -/
def RespectsUid : Revision → Prop
  | retain _ => True
  | map f => ∀ a : Attribute, (f a).isNamed uidName = a.isNamed uidName ∧
      (a.isNamed uidName = true → a.uid?.isSome → (f a).uid?.isSome)

end Revision

namespace ConnectorObject

variable {o : ConnectorObject}

def revise (o : ConnectorObject) : Revision → ConnectorObject
  | .retain names => o.retain names
  | .map f => o.mapAttributes f

def reviseAll (o : ConnectorObject) (revisions : List Revision) : ConnectorObject := revisions.foldl revise o

theorem reviseAll_append (o : ConnectorObject) (l l' : List Revision) :
    o.reviseAll (l ++ l') = (o.reviseAll l).reviseAll l' := List.foldl_append

theorem CarriesUid.uid?_isSome (h : o.CarriesUid) : o.attributes.uid?.isSome := by
  obtain ⟨a, ha, hu⟩ := h
  unfold AttributeSet.uid?
  rw [ha, Option.bind_some, hu]
  rfl

/-- Changed attributes carry the Uid of the object if they hold a Uid at all. -/
theorem carriesUid_mapAttributes_iff {f : Attribute → Attribute} :
    (o.mapAttributes f).CarriesUid ↔ (o.attributes.map f).uid?.isSome := by
  refine ⟨CarriesUid.uid?_isSome, fun h => ?_⟩
  obtain ⟨uid, huid⟩ := Option.isSome_iff_exists.1 h
  obtain ⟨a, ha, hu⟩ := Option.bind_eq_some_iff.1 huid
  refine ⟨a, ha, ?_⟩
  rw [hu]
  exact congrArg some (congrArg (Option.getD · o.uid) huid).symm

/-- The attribute of a Uid that was lost is put back by a reduction, unless another stands in its place and is asked
for. -/
theorem carriesUid_retain_iff {names : List String} :
    (o.retain names).CarriesUid ↔
      o.CarriesUid ∨ names.any (sameName uidName) = false ∨ o.attributes.get? uidName = none := by
  have hname : sameName uidName nameName = false := by decide
  have hfound : (o.retain names).attributes.get? uidName =
      (if names.any (sameName uidName) then o.attributes.get? uidName else none).or (some o.uid.toAttribute) := by
    rw [get?_retain, List.any_cons, hname, Bool.false_or, if_pos (sameName_refl uidName)]
  constructor
  · intro h
    by_cases hasked : names.any (sameName uidName) = true
    · cases ha : o.attributes.get? uidName with
      | none => exact .inr (.inr rfl)
      | some a =>
        -- the attribute asked for stays as it was
        rw [hasked, ha] at hfound
        obtain ⟨a', ha', hu⟩ := h
        cases hfound.symm.trans ha'
        exact .inl ⟨a, ha, hu⟩
    · exact .inr (.inl (Bool.eq_false_iff.2 hasked))
  · rintro (h | hunasked | hnone)
    · exact h.retain names
    · exact ⟨o.uid.toAttribute, by rw [hfound, hunasked]; rfl, rfl⟩
    · exact ⟨o.uid.toAttribute, by rw [hfound, hnone, ite_self]; rfl, rfl⟩

theorem get?_retain_uidName_ne_none (o : ConnectorObject) (names : List String) :
    (o.retain names).attributes.get? uidName ≠ none := by
  rw [get?_retain, if_pos (sameName_refl uidName)]
  exact Option.ne_none_iff_isSome.2 (by simp)

/-- Of several reductions, the first that does not ask for the Uid puts its attribute back, or the very first if
no attribute goes by its name. -/
theorem carriesUid_reviseAll_retain_iff {lists : List (List String)} :
    (o.reviseAll (lists.map .retain)).CarriesUid ↔ o.CarriesUid ∨
      ∃ names ∈ lists, names.any (sameName uidName) = false ∨ o.attributes.get? uidName = none := by
  induction lists generalizing o with
  | nil => simp [reviseAll]
  | cons names rest ih =>
    change ((o.retain names).reviseAll (rest.map .retain)).CarriesUid ↔ _
    rw [ih, carriesUid_retain_iff]
    constructor
    · rintro ((h | h) | ⟨names', hmem, h⟩)
      · exact .inl h
      · exact .inr ⟨names, List.mem_cons_self, h⟩
      · exact .inr ⟨names', List.mem_cons_of_mem _ hmem,
          .inl (h.resolve_right (get?_retain_uidName_ne_none o names))⟩
    · rintro (h | ⟨names', hmem, h⟩)
      · exact .inl (.inl h)
      · rcases List.mem_cons.1 hmem with rfl | hmem
        · exact .inl (.inr h)
        · rcases h with hunasked | hnone
          · exact .inr ⟨names', hmem, .inl hunasked⟩
          · exact .inl (.inr (.inr hnone))

/-- After a last change of the attributes, only its result and the reductions count. -/
theorem carriesUid_reviseAll_map_iff {before : List Revision} {f : Attribute → Attribute}
    {lists : List (List String)} :
    (o.reviseAll (before ++ .map f :: lists.map .retain)).CarriesUid ↔
      let changed := (o.reviseAll before).attributes.map f
      changed.uid?.isSome ∨
        ∃ names ∈ lists, names.any (sameName uidName) = false ∨ changed.get? uidName = none := by
  rw [reviseAll_append]
  change (((o.reviseAll before).mapAttributes f).reviseAll (lists.map .retain)).CarriesUid ↔ _
  rw [carriesUid_reviseAll_retain_iff, carriesUid_mapAttributes_iff]
  rfl

theorem exists_last_map (revisions : List Revision) :
    (∃ lists : List (List String), revisions = lists.map .retain) ∨
      ∃ before f, ∃ lists : List (List String), revisions = before ++ .map f :: lists.map .retain := by
  induction revisions with
  | nil => exact .inl ⟨[], rfl⟩
  | cons r rest ih =>
    rcases ih with ⟨lists, rfl⟩ | ⟨before, f, lists, rfl⟩
    · cases r with
      | retain names => exact .inl ⟨names :: lists, rfl⟩
      | map f => exact .inr ⟨[], f, lists, rfl⟩
    · exact .inr ⟨r :: before, f, lists, rfl⟩

theorem CarriesUid.revise {r : Revision} (h : o.CarriesUid) (hr : r.RespectsUid) : (o.revise r).CarriesUid := by
  cases r with
  | retain names => exact h.retain names
  | map f =>
    obtain ⟨a, ha, hu⟩ := h
    refine carriesUid_mapAttributes_iff.2 ?_
    unfold AttributeSet.uid?
    rw [AttributeSet.get?_map_of_isNamed fun a => (hr a).1, ha]
    exact (hr a).2 (AttributeSet.get?_eq_some_iff.1 ha).2 (by rw [hu]; rfl)

theorem CarriesUid.reviseAll {revisions : List Revision} (h : o.CarriesUid)
    (hrespects : ∀ r ∈ revisions, r.RespectsUid) : (o.reviseAll revisions).CarriesUid := by
  induction revisions generalizing o with
  | nil => exact h
  | cons r rest ih =>
    exact ih (h.revise (hrespects r List.mem_cons_self)) fun r' hr' => hrespects r' (List.mem_cons_of_mem _ hr')

end ConnectorObject

theorem Normalization.carriesUid_onObject_iff {n : Normalization} {o : ConnectorObject} (ho : o.CarriesUid) :
    (n.onObject o).CarriesUid ↔ (n.onSet o.attributes).uid?.isSome := by
  obtain ⟨c, normalizer?⟩ := n
  cases normalizer? with
  | none => exact iff_of_true ho ho.uid?_isSome
  | some g => exact ConnectorObject.carriesUid_mapAttributes_iff

/-- An object that was built carries its Uid, unless the last change of its attributes left no Uid to be read
and no reduction after that put the attribute back. A change that respects the Uid never does so. -/
theorem carries_uid_unless_lost {d : Draft} {o : ConnectorObject} (h : d.build = .ok o) :
    (∀ revisions, (o.reviseAll revisions).CarriesUid ↔
      ∀ before f (lists : List (List String)), revisions = before ++ .map f :: lists.map .retain →
        let changed := (o.reviseAll before).attributes.map f
        changed.uid?.isSome ∨
          ∃ names ∈ lists, names.any (sameName uidName) = false ∨ changed.get? uidName = none) ∧
    (∀ revisions, (∀ r ∈ revisions, r.RespectsUid) → (o.reviseAll revisions).CarriesUid) ∧
    ∀ n : Normalization, (n.onObject o).CarriesUid ↔ (n.onSet o.attributes).uid?.isSome := by
  have hbuilt : o.CarriesUid := d.carriesUid_of_build h
  refine ⟨fun revisions => ⟨?_, fun hchanges => ?_⟩, fun _ => hbuilt.reviseAll, fun n =>
    n.carriesUid_onObject_iff hbuilt⟩
  · rintro hcarries before f lists rfl
    exact ConnectorObject.carriesUid_reviseAll_map_iff.1 hcarries
  · rcases ConnectorObject.exists_last_map revisions with ⟨lists, rfl⟩ | ⟨before, f, lists, rfl⟩
    · exact ConnectorObject.carriesUid_reviseAll_retain_iff.2 (.inl hbuilt)
    · exact ConnectorObject.carriesUid_reviseAll_map_iff.2 (hchanges before f lists rfl)

def emptiesUid : Normalization :=
  ⟨.account, some (.ofRules [⟨some uidName, none, .clear⟩])⟩

/-- A reduction that asks for the Uid leaves the object without it, one that does not puts the attribute back. -/
theorem carries_uid_unless_lost_emptied :
    let bob : ConnectorObject := ⟨.account, ⟨"u1"⟩, .insert (.insert .empty (Uid.mk "u1").toAttribute)
      (Name.mk "bob").toAttribute⟩
    ((Draft.empty.withUid "u1").withName "bob").build = .ok bob ∧
    ¬ (emptiesUid.onObject bob).CarriesUid ∧ (emptiesUid.onObject bob).uid = ⟨"u1"⟩ ∧
    ¬ (bob.reviseAll [.map emptiesUid.onAttribute, .retain [uidName]]).CarriesUid ∧
    (bob.reviseAll [.map emptiesUid.onAttribute, .retain [uidName], .retain []]).CarriesUid := by
  intro bob
  have hbuild : ((Draft.empty.withUid "u1").withName "bob").build = .ok bob := by decide
  obtain ⟨hiff, -, hnormalized⟩ := carries_uid_unless_lost hbuild
  have hlost : ¬ ((bob.reviseAll []).attributes.map emptiesUid.onAttribute).uid?.isSome := by decide
  refine ⟨hbuild, ?_, by decide, ?_, ?_⟩
  · exact fun h => hlost ((hnormalized emptiesUid).1 h)
  · intro h
    rcases (hiff _).1 h [] emptiesUid.onAttribute [[uidName]] rfl with hheld | ⟨names, hnames, hback⟩
    · exact hlost hheld
    · cases List.mem_singleton.1 hnames
      exact absurd hback (by decide)
  · exact ⟨(Uid.mk "u1").toAttribute, by decide, rfl⟩

end Provisioning
