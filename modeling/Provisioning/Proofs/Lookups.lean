import Mathlib.Data.List.Basic
import Provisioning.Normalizer

/-! What is found under a name: in a set built from a list, in one whose attributes were changed, in a
reduced object. A filter reads what it finds under the names of its leaves, and nothing else, so two objects
that agree on those names are accepted alike: `accepts_congr`. -/

namespace Provisioning

theorem sameName_congr {a b : String} (h : sameName a b = true) : sameName a = sameName b := by
  funext c
  rw [Bool.eq_iff_iff, sameName_iff, sameName_iff, (sameName_iff a b).1 h]

namespace AttributeSet

theorem get?_congr {a b : String} (h : sameName a b = true) (s : AttributeSet) : s.get? a = s.get? b := by
  unfold get?
  rw [(sameName_iff a b).1 h]

theorem get?_eq_some_iff {s : AttributeSet} {name : String} {a : Attribute} :
    s.get? name = some a ↔ a ∈ s.entries ∧ a.isNamed name = true :=
  ⟨fun h => ⟨mem_of_get? h, (a.isNamed_iff name).2 (key_eq_of_get? h)⟩, fun h => get?_of_mem h.1 h.2⟩

/-- Of attributes put into a set one after the other, the last of a name is found. -/
theorem get?_foldl_insert (l : List Attribute) (s : AttributeSet) (name : String) :
    (l.foldl insert s).get? name = (l.reverse.find? fun a => a.isNamed name).or (s.get? name) := by
  induction l generalizing s with
  | nil => rfl
  | cons a rest ih =>
    rw [List.foldl_cons, ih, get?_insert, List.reverse_cons, List.find?_append, Option.or_assoc]
    by_cases h : a.isNamed name
    · simp [h]
    · simp [h]

theorem find?_filterMap_get? (s : AttributeSet) (names : List String) (name : String) :
    (names.filterMap s.get?).find? (fun a => a.isNamed name) =
      if names.any (sameName name) then s.get? name else none := by
  induction names with
  | nil => rfl
  | cons m rest ih =>
    rw [List.any_cons]
    cases hm : s.get? m with
    | none =>
      rw [List.filterMap_cons_none hm, ih]
      by_cases h : sameName name m
      · simp [h, get?_congr h, hm]
      · simp [h]
    | some a =>
      have hnamed : a.isNamed name = sameName name m := by
        rw [Bool.eq_iff_iff, a.isNamed_iff, key_eq_of_get? hm, sameName_iff, eq_comm]
      rw [List.filterMap_cons_some hm, List.find?_cons, ih, hnamed]
      by_cases h : sameName name m
      · simp [h, get?_congr h, hm]
      · simp [h]

/-- A change that keeps who goes by a name changes what is found under it. -/
theorem get?_map_of_isNamed {g : Attribute → Attribute} {name : String}
    (hg : ∀ a, (g a).isNamed name = a.isNamed name) (s : AttributeSet) :
    (s.map g).get? name = (s.get? name).map g := by
  have hnamed : ((fun a : Attribute => a.isNamed name) ∘ g) = fun a => a.isNamed name := funext hg
  have hreverse : s.entries.reverse.find? (fun a => a.isNamed name) = s.get? name := by
    cases h : s.get? name with
    | none =>
      refine List.find?_eq_none.2 fun a ha hn => ?_
      rw [get?_of_mem (List.mem_reverse.1 ha) hn] at h
      cases h
    | some a =>
      obtain ⟨hmem, hn⟩ := get?_eq_some_iff.1 h
      have hsome : (s.entries.reverse.find? fun a => a.isNamed name).isSome :=
        List.find?_isSome.2 ⟨a, List.mem_reverse.2 hmem, hn⟩
      obtain ⟨b, hb⟩ := Option.isSome_iff_exists.1 hsome
      have hbn : b.isNamed name = true := by simpa using List.find?_some hb
      rw [hb, ← h, get?_of_mem (List.mem_reverse.1 (List.mem_of_find?_eq_some hb)) hbn]
  rw [map, ofList, get?_foldl_insert, get?_empty, Option.or_none, ← List.map_reverse, List.find?_map,
    hnamed, hreverse]

theorem get?_map {g : Attribute → Attribute} (hg : ∀ a, (g a).name = a.name) (s : AttributeSet)
    (name : String) : (s.map g).get? name = (s.get? name).map g :=
  get?_map_of_isNamed (fun a => by rw [Attribute.isNamed, hg, Attribute.isNamed]) s

end AttributeSet

namespace ConnectorObject

theorem attributes_retain (o : ConnectorObject) (names : List String) :
    (o.retain names).attributes =
      ((nameName :: names).filterMap o.attributes.get?).foldl .insert (.insert .empty o.uid.toAttribute) := by
  unfold retain
  rw [List.filterMap_cons]
  cases o.attributes.get? nameName <;> rfl

/-- What is left of an object: its name, what was asked for, and in any case a Uid attribute. -/
theorem get?_retain (o : ConnectorObject) (names : List String) (name : String) :
    (o.retain names).attributes.get? name =
      (if (nameName :: names).any (sameName name) then o.attributes.get? name else none).or
        (if sameName name uidName then some o.uid.toAttribute else none) := by
  have huid : o.uid.toAttribute.isNamed name = sameName name uidName := sameName_comm uidName name
  rw [attributes_retain, AttributeSet.get?_foldl_insert, ← List.filterMap_reverse,
    AttributeSet.find?_filterMap_get?, List.any_reverse, AttributeSet.get?_insert, huid,
    AttributeSet.get?_empty]

theorem retain_eq_retain {o p : ConnectorObject} {l₁ l₂ : List String} (hc : o.objectClass = p.objectClass)
    (hu : o.uid = p.uid) (ha : (o.retain l₁).attributes = (p.retain l₂).attributes) : o.retain l₁ = p.retain l₂ := by
  change (⟨o.objectClass, o.uid, (o.retain l₁).attributes⟩ : ConnectorObject) =
    ⟨p.objectClass, p.uid, (p.retain l₂).attributes⟩
  rw [hc, hu, ha]

theorem retain_congr {o p : ConnectorObject} {names : List String} (hc : o.objectClass = p.objectClass)
    (hu : o.uid = p.uid) (hg : ∀ name ∈ nameName :: names, o.attributes.get? name = p.attributes.get? name) :
    o.retain names = p.retain names := by
  refine retain_eq_retain hc hu ?_
  rw [attributes_retain, attributes_retain, hu, List.filterMap_congr hg]

end ConnectorObject

namespace Filter

theorem leavesOfEach_eq (parts : List Filter) : leavesOfEach parts = parts.flatMap leaves := by
  induction parts with
  | nil => rfl
  | cons f rest ih => simp [leavesOfEach, ih]

/-- What a filter says of an object is made up of what each leaf says of it. -/
theorem accepts_congr_of_leaves {f : Filter} {o p : ConnectorObject}
    (h : ∀ a ∈ f.leaves, ∀ c, acceptsLeaf o c a = acceptsLeaf p c a) : f.accepts o = f.accepts p := by
  induction f using Filter.induct with
  | leaf c a =>
    rw [accepts_leaf, accepts_leaf, h a (by simp [leaves])]
  | not f ih =>
    rw [accepts_not, accepts_not, ih h]
  | all parts ih =>
    rw [leaves, leavesOfEach_eq] at h
    rw [accepts_all, accepts_all, Bool.eq_iff_iff, List.all_eq_true, List.all_eq_true]
    have hpart : ∀ f ∈ parts, f.accepts o = f.accepts p := fun f hf =>
      ih f hf fun a ha => h a (List.mem_flatMap.2 ⟨f, hf, ha⟩)
    exact forall₂_congr fun f hf => by rw [hpart f hf]
  | any parts ih =>
    rw [leaves, leavesOfEach_eq] at h
    rw [accepts_any, accepts_any, Bool.eq_iff_iff, List.any_eq_true, List.any_eq_true]
    have hpart : ∀ f ∈ parts, f.accepts o = f.accepts p := fun f hf =>
      ih f hf fun a ha => h a (List.mem_flatMap.2 ⟨f, hf, ha⟩)
    exact exists_congr fun f => and_congr_right fun hf => by rw [hpart f hf]

theorem accepts_congr {f : Filter} {o p : ConnectorObject}
    (h : ∀ a ∈ f.leaves, o.get? a.name = p.get? a.name) : f.accepts o = f.accepts p :=
  accepts_congr_of_leaves fun a ha c => by rw [acceptsLeaf, acceptsLeaf, h a ha]

/-- Names followed by those of others that are not among them. -/
def addNames (names added : List String) : List String :=
  added.foldl (fun kept n => if kept.any (sameName n) then kept else kept ++ [n]) names

theorem any_addNames (names added : List String) (name : String) :
    (addNames names added).any (sameName name) = (names.any (sameName name) || added.any (sameName name)) := by
  unfold addNames
  induction added generalizing names with
  | nil => simp
  | cons n rest ih =>
    rw [List.foldl_cons, ih, List.any_cons, ← Bool.or_assoc]
    congr 1
    by_cases h : names.any (sameName n) = true
    · rw [if_pos h]
      by_cases hn : sameName name n = true
      · rw [sameName_congr hn, h, Bool.true_or]
      · simp [hn]
    · rw [if_neg h, List.any_append]
      simp

theorem any_attributeNames (f : Filter) (name : String) :
    f.attributeNames.any (sameName name) = f.leaves.any fun a => sameName name a.name := by
  change (addNames [] (f.leaves.map Attribute.name)).any (sameName name) = _
  rw [any_addNames, List.any_nil, Bool.false_or, List.any_map]
  rfl

end Filter

namespace Attribute

theorem values?_of_uid? {a : Attribute} {uid : Uid} (h : a.uid? = some uid) :
    a.values? = some [.string uid.value] := by
  obtain ⟨name, values?⟩ := a
  unfold uid? singleString? singleValue? values at h
  match values? with
  | none => simp at h
  | some [] => simp at h
  | some (_ :: _ :: _) => simp at h
  | some [v] =>
    obtain ⟨s, hs, rfl⟩ := Option.map_eq_some_iff.1 h
    cases v <;> simp [Value.string?] at hs
    rw [hs]

theorem eq_toAttribute {a : Attribute} {uid : Uid} (hn : a.name = uidName) (hu : a.uid? = some uid) :
    a = uid.toAttribute := by
  have hv := values?_of_uid? hu
  obtain ⟨name, values?⟩ := a
  cases hn
  cases hv
  rfl

theorem uid?_congr {a b : Attribute} (h : a.values? = b.values?) : a.uid? = b.uid? := by
  unfold uid? singleString? singleValue? values
  rw [h]

end Attribute

/-- The object has its Uid as the one value of an attribute, as every object does that was built. -/
def ConnectorObject.CarriesUid (o : ConnectorObject) : Prop :=
  ∃ a, o.attributes.get? uidName = some a ∧ a.uid? = some o.uid

/-- What is built is the draft as it stands, once it has an attribute that holds a Uid, and any by the name of the
name. -/
theorem Draft.build_eq_ok_iff {d : Draft} {o : ConnectorObject} :
    d.build = .ok o ↔ d.attributes.uid? = some o.uid ∧ d.attributes.contains nameName = true ∧
      o.objectClass = d.objectClass?.getD .account ∧ o.attributes = d.attributes := by
  obtain ⟨objectClass, uid, attributes⟩ := o
  unfold build AttributeSet.uid? Uid.ofAttribute
  cases ha : d.attributes.get? uidName with
  | none => simp
  | some a =>
    cases hu : a.uid? with
    | none => simp [hu, bind, Except.bind]
    | some u =>
      simp only [hu, bind, Except.bind, pure, Except.pure]
      split
      · next hname =>
        simp only [hname, Except.ok.injEq, ConnectorObject.mk.injEq, Option.bind_some, Option.some_inj, true_and, hu]
        exact ⟨fun ⟨hc, hu, hs⟩ => ⟨hu, hc.symm, hs.symm⟩, fun ⟨hu, hc, hs⟩ => ⟨hc.symm, hu, hs.symm⟩⟩
      · next hname => simp [throw, throwThe, MonadExceptOf.throw, hname]

/-- An object that was built carries its Uid, and it has a name. -/
theorem Draft.of_build {d : Draft} {o : ConnectorObject} (h : d.build = .ok o) :
    o.CarriesUid ∧ o.attributes.contains nameName = true := by
  obtain ⟨huid, hname, -, hattributes⟩ := build_eq_ok_iff.1 h
  obtain ⟨a, ha, hu⟩ := Option.bind_eq_some_iff.1 huid
  rw [← hattributes] at ha hname
  exact ⟨⟨a, ha, hu⟩, hname⟩

theorem Draft.carriesUid_of_build {d : Draft} {o : ConnectorObject} (h : d.build = .ok o) : o.CarriesUid :=
  (of_build h).1

namespace ConnectorObject

theorem CarriesUid.retain {o : ConnectorObject} (h : o.CarriesUid) (names : List String) :
    (o.retain names).CarriesUid := by
  obtain ⟨a, ha, hu⟩ := h
  unfold CarriesUid
  rw [get?_retain, ha]
  by_cases hasked : (nameName :: names).any (sameName uidName) = true
  · exact ⟨a, by simp [hasked], hu⟩
  · exact ⟨o.uid.toAttribute, by simp [hasked, sameName_refl], rfl⟩

def HasUsualUid (o : ConnectorObject) : Prop := o.attributes.get? uidName = some o.uid.toAttribute

theorem hasUsualUid_of_build {d : Draft} {o : ConnectorObject} (h : d.build = .ok o)
    (hn : (o.attributes.get? uidName).map Attribute.name = some uidName) : o.HasUsualUid := by
  obtain ⟨a, ha, hu⟩ := Draft.carriesUid_of_build h
  rw [ha, Option.map_some, Option.some_inj] at hn
  rw [HasUsualUid, ha, Attribute.eq_toAttribute hn hu]

theorem HasUsualUid.get?_retain {o : ConnectorObject} (h : o.HasUsualUid) (names : List String) (name : String) :
    (o.retain names).attributes.get? name =
      if (uidName :: nameName :: names).any (sameName name) then o.attributes.get? name else none := by
  rw [ConnectorObject.get?_retain, List.any_cons]
  by_cases hu : sameName name uidName = true
  · rw [AttributeSet.get?_congr hu, h, if_pos hu, List.any_cons, hu, Bool.true_or, if_pos rfl]
    split <;> rfl
  · simp [hu]

end ConnectorObject

namespace Normalization

variable {n : Normalization}

theorem get?_onObject (hn : ∀ a, (n.onAttribute a).name = a.name) (o : ConnectorObject) (name : String) :
    (n.onObject o).attributes.get? name = (o.attributes.get? name).map n.onAttribute := by
  obtain ⟨c, normalizer?⟩ := n
  cases normalizer? with
  | none => exact Option.map_id'.symm
  | some g => exact AttributeSet.get?_map hn o.attributes name

theorem objectClass_onObject (n : Normalization) (o : ConnectorObject) :
    (n.onObject o).objectClass = o.objectClass := by
  unfold onObject
  split <;> rfl

theorem uid_onObject_congr {o p : ConnectorObject} (hu : o.uid = p.uid)
    (h : (n.onObject o).attributes.get? uidName = (n.onObject p).attributes.get? uidName) :
    (n.onObject o).uid = (n.onObject p).uid := by
  obtain ⟨c, normalizer?⟩ := n
  cases normalizer? with
  | none => exact hu
  | some g =>
    change ((o.attributes.map (g c)).uid?).getD o.uid = ((p.attributes.map (g c)).uid?).getD p.uid
    change (o.attributes.map (g c)).get? uidName = (p.attributes.map (g c)).get? uidName at h
    unfold AttributeSet.uid?
    rw [h, hu]

end Normalization

end Provisioning
