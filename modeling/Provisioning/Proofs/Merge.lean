import Provisioning.Merge
import Provisioning.Proofs.Lookups

/-! Merged sets, name by name. A merge puts together what becomes of the requested attributes, the attributes that
are not mentioned, and the requested Uid; `merge_pointwise` says what is found there under each name. That two requests
made one after the other come to one request is then a matter of single attributes: `merges_compose`. -/

namespace Provisioning

theorem find?_eq_some_of_unique {α : Type} {l : List α} {p : α → Bool} {a : α} (ha : a ∈ l) (hp : p a = true)
    (hunique : ∀ b ∈ l, p b = true → b = a) : l.find? p = some a := by
  obtain ⟨b, hb⟩ := Option.isSome_iff_exists.1 (List.find?_isSome.2 ⟨a, ha, hp⟩)
  rw [hb, hunique b (List.mem_of_find?_eq_some hb) (List.find?_some hb)]

namespace AttributeSet

theorem isNamed_of_get? {s : AttributeSet} {name : String} {a : Attribute} (h : s.get? name = some a)
    (other : String) : a.isNamed other = sameName name other :=
  congrFun (sameName_congr (get?_eq_some_iff.1 h).2) other

theorem get?_name_of_get? {s : AttributeSet} {name : String} {a : Attribute} (h : s.get? name = some a)
    (t : AttributeSet) : t.get? a.name = t.get? name :=
  get?_congr (get?_eq_some_iff.1 h).2 t

/-- A set has one attribute under each name, so a change that keeps names leaves one there, or none. -/
theorem find?_reverse_filterMap {g : Attribute → Option Attribute} (hg : ∀ a b, g a = some b → b.name = a.name)
    (s : AttributeSet) (name : String) :
    (s.entries.filterMap g).reverse.find? (fun a => a.isNamed name) = (s.get? name).bind g := by
  have hnamed {a b : Attribute} (h : g a = some b) : b.isNamed name = a.isNamed name := by
    rw [Attribute.isNamed, hg a b h, Attribute.isNamed]
  have hfrom : ∀ b ∈ (s.entries.filterMap g).reverse, b.isNamed name = true →
      (s.get? name).bind g = some b := by
    intro b hb hn
    obtain ⟨a, ha, hab⟩ := List.mem_filterMap.1 (List.mem_reverse.1 hb)
    rw [get?_of_mem ha (hnamed hab ▸ hn), Option.bind_some, hab]
  cases h : (s.get? name).bind g with
  | none =>
    refine List.find?_eq_none.2 fun b hb hn => ?_
    cases h.symm.trans (hfrom b hb hn)
  | some b =>
    obtain ⟨a, ha, hab⟩ := Option.bind_eq_some_iff.1 h
    obtain ⟨hmem, hn⟩ := get?_eq_some_iff.1 ha
    refine find?_eq_some_of_unique (List.mem_reverse.2 (List.mem_filterMap.2 ⟨a, hmem, hab⟩)) (hnamed hab ▸ hn)
      fun b' hb' hn' => ?_
    exact Option.some_inj.1 ((hfrom b' hb' hn').symm.trans h)

theorem find?_reverse_filter (s : AttributeSet) (p : Attribute → Bool) (name : String) :
    (s.entries.filter p).reverse.find? (fun a => a.isNamed name) = (s.get? name).filter p := by
  rw [← List.filterMap_eq_filter, find?_reverse_filterMap fun a b h => ?_]
  · cases s.get? name <;> rfl
  · rw [(Option.guard_eq_some_iff.1 h).1]

end AttributeSet

namespace UpdateKind

/-- What is there under a name after a request, given what was requested and what was there. -/
def applyTo (kind : UpdateKind) (requested? current? : Option Attribute) : Option Attribute :=
  match requested? with
  | none => current?
  | some requested => kind.apply requested current?

theorem name_of_apply {kind : UpdateKind} {requested a : Attribute} {current? : Option Attribute}
    (h : kind.apply requested current? = some a) : a.name = requested.name := by
  cases kind with
  | add => cases h; rfl
  | delete =>
    obtain ⟨_, _, rfl⟩ := Option.map_eq_some_iff.1 h
    rfl
  | replace => cases h; rfl

/-- The kind of request as which two requests of a kind are gathered into one: values to be deleted add up. -/
def gathering : UpdateKind → UpdateKind
  | add => add
  | delete => add
  | replace => replace

theorem applyTo_applyTo (kind : UpdateKind) (second? first? current? : Option Attribute) :
    kind.applyTo second? (kind.applyTo first? current?) =
      kind.applyTo (kind.gathering.applyTo second? first?) current? := by
  match second?, first? with
  | none, _ => rfl
  | some second, none => cases kind <;> rfl
  | some second, some first =>
    cases kind with
    | add => simp [applyTo, apply, gathering, Attribute.of, Attribute.values]
    | delete =>
      cases current? with
      | none => rfl
      | some current => simp [applyTo, apply, gathering, Attribute.of, Attribute.values, Bool.and_comm]
    | replace => rfl

theorem applyTo_self {kind : UpdateKind} (hkind : kind ≠ .add) (requested? current? : Option Attribute) :
    kind.applyTo requested? (kind.applyTo requested? current?) = kind.applyTo requested? current? := by
  match requested?, current? with
  | none, _ => rfl
  | some requested, none => cases kind <;> first | rfl | exact absurd rfl hkind
  | some requested, some current =>
    cases kind with
    | add => exact absurd rfl hkind
    | delete => simp [applyTo, apply, Attribute.of, Attribute.values]
    | replace => rfl

end UpdateKind

section Parts

variable (kind : UpdateKind) (requested current : AttributeSet) (name : String)

theorem find?_changed :
    ((requested.entries.filter fun a => !a.isUid).filterMap fun a => kind.apply a (current.get? a.name)).reverse.find?
        (fun a => a.isNamed name) =
      if sameName name uidName then none else (requested.get? name).bind fun a => kind.apply a (current.get? name) := by
  rw [List.filterMap_filter, AttributeSet.find?_reverse_filterMap fun a b h => ?_]
  · cases h : requested.get? name with
    | none => simp
    | some a =>
      have huid : a.isUid = sameName name uidName := AttributeSet.isNamed_of_get? h uidName
      rw [Option.bind_some, Option.bind_some, huid, AttributeSet.get?_name_of_get? h]
      cases sameName name uidName <;> rfl
  · split at h
    · exact UpdateKind.name_of_apply h
    · cases h

/-- What the request mentions is not kept, even where nothing has become of it. -/
theorem find?_kept :
    (current.entries.filter fun a => !a.isUid && !requested.contains a.name).reverse.find? (fun a => a.isNamed name) =
      if sameName name uidName || requested.contains name then none else current.get? name := by
  rw [AttributeSet.find?_reverse_filter]
  cases h : current.get? name with
  | none => simp
  | some a =>
    have huid : a.isUid = sameName name uidName := AttributeSet.isNamed_of_get? h uidName
    rw [Option.filter_some, huid, AttributeSet.contains, AttributeSet.get?_name_of_get? h, ← AttributeSet.contains,
      ← Bool.not_or]
    cases sameName name uidName || requested.contains name <;> rfl

theorem find?_uid :
    (requested.get? uidName).toList.reverse.find? (fun a => a.isNamed name) =
      if sameName name uidName then requested.get? uidName else none := by
  cases h : requested.get? uidName with
  | none => simp
  | some a => simp [AttributeSet.isNamed_of_get? h, sameName_comm uidName name]

/-- Under the name of the Uid there is what was requested, under any other what the request makes of what was there. -/
theorem get?_merge :
    (merge kind requested current).get? name =
      if sameName name uidName then requested.get? uidName
      else kind.applyTo (requested.get? name) (current.get? name) := by
  unfold merge
  rw [AttributeSet.get?_foldl_insert, List.reverse_append, List.reverse_append, List.find?_append, List.find?_append,
    find?_uid, find?_kept, find?_changed, AttributeSet.get?_empty, Option.or_none, AttributeSet.contains]
  cases sameName name uidName with
  | true => simp
  | false => cases requested.get? name <;> simp [UpdateKind.applyTo]

end Parts

/-- What is found in a merged set: under the Uid's name what was requested, under any other name what the
request makes of what was there. -/
theorem merge_pointwise (kind : UpdateKind) (requested current : AttributeSet) (name : String) :
    (merge kind requested current).get? name =
      if sameName name uidName then requested.get? uidName
      else
        match requested.get? name, kind with
        | none, _ => current.get? name
        | some r, .replace => some r
        | some r, .add => some ⟨r.name, some ((current.get? name).elim [] Attribute.values ++ r.values)⟩
        | some r, .delete => (current.get? name).map fun c =>
            ⟨r.name, some (c.values.filter fun v => !r.values.any (· == v))⟩ := by
  rw [get?_merge]
  split
  · rfl
  · cases requested.get? name with
    | none => rfl
    | some r =>
      cases kind with
      | add => cases current.get? name <;> rfl
      | delete => rfl
      | replace => rfl

theorem merge_merge (kind : UpdateKind) (first second current : AttributeSet) :
    merge kind second (merge kind first current) = merge kind (merge kind.gathering second first) current := by
  refine AttributeSet.ext_get? fun name => ?_
  simp only [get?_merge, sameName_refl, if_true]
  split
  · rfl
  · exact kind.applyTo_applyTo _ _ _

theorem merge_self {kind : UpdateKind} (hkind : kind ≠ .add) (requested current : AttributeSet) :
    merge kind requested (merge kind requested current) = merge kind requested current := by
  refine AttributeSet.ext_get? fun name => ?_
  simp only [get?_merge]
  split
  · rfl
  · exact UpdateKind.applyTo_self hkind _ _

/-- Two requests of one kind come to a single one into which they were merged beforehand; what is to
be deleted adds up. -/
theorem merges_compose (first second current : AttributeSet) :
    merge .add second (merge .add first current) = merge .add (merge .add second first) current ∧
    merge .delete second (merge .delete first current) = merge .delete (merge .add second first) current ∧
    merge .replace second (merge .replace first current) = merge .replace (merge .replace second first) current ∧
    merge .delete first (merge .delete first current) = merge .delete first current ∧
    merge .replace first (merge .replace first current) = merge .replace first current :=
  ⟨merge_merge .add first second current, merge_merge .delete first second current,
    merge_merge .replace first second current, merge_self (by decide) first current,
    merge_self (by decide) first current⟩

end Provisioning
