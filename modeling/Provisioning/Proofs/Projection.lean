import Provisioning.Proofs.Listing

/-! Reduction. What is left of an object when it is reduced to some names are its own attributes: the Uid, the name and
those that were named, listed as before. Only the name of the Uid attribute is then spelled as usual, unless it was asked
for. One reduction after another is the reduction to the names that both ask for: `retain_is_projection`. -/

namespace Provisioning

namespace AttributeSet

def filter (s : AttributeSet) (p : Attribute → Bool) : AttributeSet := ⟨s.entries.filter p, s.sorted.filter p⟩

theorem get?_filter (s : AttributeSet) (p : Attribute → Bool) (name : String) :
    (s.filter p).get? name = (s.get? name).filter p := by
  refine Option.ext fun a => ?_
  rw [Option.filter_eq_some_iff, get?_eq_some_iff, get?_eq_some_iff, filter, List.mem_filter]
  exact and_right_comm

theorem toList_map {g : Attribute → Attribute} (hg : ∀ a, (g a).key = a.key) (s : AttributeSet) :
    (s.map g).toList = s.toList.map g := by
  have hsorted : (s.entries.map g).Pairwise fun a b => a.key < b.key :=
    List.pairwise_map.2 (s.sorted.imp fun {a b} hlt => by rwa [hg, hg])
  exact congrArg entries (ofList_entries ⟨s.entries.map g, hsorted⟩)

end AttributeSet

namespace ConnectorObject

variable {o : ConnectorObject}

def keeps (names : List String) (a : Attribute) : Bool := a.isUid || a.isName || names.any a.isNamed

/-- Without being asked for, the attribute of the Uid is spelled as usual. -/
def respelled (names : List String) (a : Attribute) : Attribute :=
  if a.isUid && !names.any a.isNamed then ⟨uidName, a.values?⟩ else a

theorem key_respelled (names : List String) (a : Attribute) : (respelled names a).key = a.key := by
  unfold respelled
  split
  · next h => exact ((a.isNamed_iff uidName).1 (by simp at h; exact h.1)).symm
  · rfl

theorem values?_respelled (names : List String) (a : Attribute) : (respelled names a).values? = a.values? := by
  unfold respelled
  split <;> rfl

theorem isUid_respelled (names : List String) (a : Attribute) : (respelled names a).isUid = a.isUid := by
  rw [Bool.eq_iff_iff, Attribute.isUid, Attribute.isUid, Attribute.isNamed_iff, Attribute.isNamed_iff, key_respelled]

theorem respelled_of_not_isUid {names : List String} {a : Attribute} (h : a.isUid = false) : respelled names a = a :=
  if_neg (by simp [h])

theorem attributes_retain_of_carriesUid (h : o.CarriesUid) (names : List String) :
    (o.retain names).attributes = (o.attributes.filter (keeps names)).map (respelled names) := by
  refine AttributeSet.ext_get? fun name => ?_
  have hnamed (a : Attribute) : (respelled names a).isNamed name = a.isNamed name := by
    rw [Bool.eq_iff_iff, Attribute.isNamed_iff, Attribute.isNamed_iff, key_respelled]
  rw [get?_retain, AttributeSet.get?_map_of_isNamed hnamed, AttributeSet.get?_filter]
  obtain ⟨u, hu, huid⟩ := h
  -- only under the name of the Uid something else than the stored attribute may be found
  by_cases hname : sameName name uidName = true
  · have hother : sameName name nameName = false := by
      rw [sameName_congr hname]
      decide
    have hisUid : u.isUid = true := (AttributeSet.get?_eq_some_iff.1 hu).2
    have hasked : names.any u.isNamed = names.any (sameName name) := by
      rw [sameName_congr hname, ← sameName_congr hisUid]
      rfl
    have hvalues : o.uid.toAttribute = ⟨uidName, u.values?⟩ := by
      rw [Attribute.values?_of_uid? huid]
      rfl
    have hkept : keeps names u = true := by rw [keeps, hisUid, Bool.true_or, Bool.true_or]
    rw [AttributeSet.get?_congr hname, hu, Option.filter_some, if_pos hkept, if_pos hname, List.any_cons, hother,
      Bool.false_or, Option.map_some, respelled, hisUid, hasked, hvalues]
    cases names.any (sameName name) <;> rfl
  · rw [if_neg hname, Option.or_none]
    cases hg : o.attributes.get? name with
    | none => rw [ite_self, Option.filter_none, Option.map_none]
    | some a =>
      have hsame := sameName_congr (AttributeSet.get?_eq_some_iff.1 hg).2
      have hisUid : a.isUid = false := by
        rw [Attribute.isUid, Attribute.isNamed, hsame]
        exact Bool.eq_false_iff.2 hname
      have hkept : keeps names a = (nameName :: names).any (sameName name) := by
        rw [keeps, hisUid, Bool.false_or, Attribute.isName, Attribute.isNamed, hsame, List.any_cons]
        exact congrArg (_ || names.any ·) hsame
      have hspelled : respelled names a = a := respelled_of_not_isUid hisUid
      rw [Option.filter_some, hkept]
      cases (nameName :: names).any (sameName name) with
      | false => rfl
      | true => exact congrArg some hspelled.symm

theorem any_filter_any (l₁ l₂ : List String) (name : String) :
    (l₁.filter fun n => l₂.any (sameName n)).any (sameName name) =
      (l₁.any (sameName name) && l₂.any (sameName name)) := by
  rw [Bool.eq_iff_iff, Bool.and_eq_true, List.any_eq_true, List.any_eq_true]
  constructor
  · rintro ⟨n, hn, hsame⟩
    obtain ⟨hn, hl⟩ := List.mem_filter.1 hn
    exact ⟨⟨n, hn, hsame⟩, by rwa [sameName_congr hsame]⟩
  · rintro ⟨⟨n, hn, hsame⟩, hl⟩
    exact ⟨n, List.mem_filter.2 ⟨hn, by rwa [← sameName_congr hsame]⟩, hsame⟩

/-- One reduction after another is the reduction to the names that both ask for. -/
theorem retain_retain (o : ConnectorObject) (l₁ l₂ : List String) :
    (o.retain l₁).retain l₂ = o.retain (l₁.filter fun n => l₂.any (sameName n)) := by
  refine retain_eq_retain rfl rfl (AttributeSet.ext_get? fun name => ?_)
  have huid : (o.retain l₁).uid = o.uid := rfl
  rw [get?_retain, get?_retain, get?_retain, huid, List.any_cons, List.any_cons, List.any_cons, any_filter_any]
  cases sameName name nameName <;> cases l₁.any (sameName name) <;> cases l₂.any (sameName name) <;>
    cases sameName name uidName <;> simp

theorem retain_self (o : ConnectorObject) (l : List String) : (o.retain l).retain l = o.retain l := by
  have hall : (l.filter fun n => l.any (sameName n)) = l :=
    List.filter_eq_self.2 fun n hn => List.any_eq_true.2 ⟨n, hn, sameName_refl n⟩
  rw [retain_retain, hall]

theorem toList_retain (h : o.CarriesUid) (names : List String) :
    (o.retain names).attributes.toList = (o.attributes.toList.filter (keeps names)).map (respelled names) := by
  rw [attributes_retain_of_carriesUid h, AttributeSet.toList_map (key_respelled names)]
  rfl

/-- What a reduction leaves depends on which of the attributes are asked for, and on nothing else. -/
theorem retain_eq_of_any_eq (h : o.CarriesUid) {l₁ l₂ : List String}
    (hl : ∀ a ∈ o.attributes.toList, l₁.any a.isNamed = l₂.any a.isNamed) : o.retain l₁ = o.retain l₂ := by
  have hkeeps : o.attributes.toList.filter (keeps l₁) = o.attributes.toList.filter (keeps l₂) :=
    List.filter_congr fun a ha => by rw [keeps, keeps, hl a ha]
  have hspelled : ∀ a ∈ o.attributes.toList.filter (keeps l₂), respelled l₁ a = respelled l₂ a := fun a ha => by
    rw [respelled, respelled, hl a (List.mem_filter.1 ha).1]
  have hlist : (o.retain l₁).attributes.toList = (o.retain l₂).attributes.toList := by
    rw [toList_retain h, toList_retain h, hkeeps, List.map_congr_left hspelled]
  exact retain_eq_retain rfl rfl (AttributeSet.eq_of_perm (.of_eq hlist))

theorem retain_comm (h : o.CarriesUid) (l₁ l₂ : List String) : (o.retain l₁).retain l₂ = (o.retain l₂).retain l₁ := by
  rw [retain_retain, retain_retain]
  refine retain_eq_of_any_eq h fun a _ => (any_filter_any l₁ l₂ a.name).trans ?_
  rw [Bool.and_comm]
  exact (any_filter_any l₂ l₁ a.name).symm

theorem contains_name_retain {d : Draft} (hd : d.build = .ok o) (names : List String) :
    (o.retain names).attributes.contains nameName = true := by
  rw [AttributeSet.contains, get?_retain, List.any_cons, sameName_refl, Bool.true_or, if_pos rfl, Option.isSome_or,
    Bool.or_eq_true]
  exact .inl (Draft.of_build hd).2

section Monotone

variable {l₁ l₂ : List String} (hl : ∀ n ∈ l₁, l₂.any (sameName n) = true)
include hl

theorem any_of_any (name : String) (h : l₁.any (sameName name) = true) : l₂.any (sameName name) = true := by
  obtain ⟨n, hn, hsame⟩ := List.any_eq_true.1 h
  rw [sameName_congr hsame]
  exact hl n hn

theorem retain_retain_of_subset (h : o.CarriesUid) : (o.retain l₂).retain l₁ = o.retain l₁ := by
  rw [retain_retain]
  refine retain_eq_of_any_eq h fun a _ => (any_filter_any l₂ l₁ a.name).trans ?_
  rw [Bool.eq_iff_iff, Bool.and_eq_true]
  exact and_iff_right_of_imp (any_of_any hl a.name)

theorem exists_mem_retain_of_subset (h : o.CarriesUid) {a : Attribute} (ha : a ∈ (o.retain l₁).attributes.toList) :
    ∃ b ∈ (o.retain l₂).attributes.toList, b.values? = a.values? ∧ b.isNamed a.name = true ∧
      (a.isUid = false → b = a) := by
  rw [toList_retain h, List.mem_map] at ha
  obtain ⟨c, hc, rfl⟩ := ha
  obtain ⟨hmem, hkept⟩ := List.mem_filter.1 hc
  have hkept' : keeps l₂ c = true := by
    simp only [keeps, Bool.or_eq_true] at hkept ⊢
    exact hkept.imp_right (any_of_any hl c.name)
  refine ⟨respelled l₂ c, ?_, ?_, ?_, fun huid => ?_⟩
  · rw [toList_retain h]
    exact List.mem_map_of_mem (List.mem_filter.2 ⟨hmem, hkept'⟩)
  · rw [values?_respelled, values?_respelled]
  · rw [Attribute.isNamed_iff, key_respelled]
    exact (key_respelled l₁ c).symm
  · have hother : c.isUid = false := by rwa [isUid_respelled] at huid
    rw [respelled_of_not_isUid hother, respelled_of_not_isUid hother]

end Monotone

/-- Reductions of a built object are projections: one after another is the reduction to the names that both ask
for. Class, Uid and name stay. -/
theorem retain_is_projection {d : Draft} (hd : d.build = .ok o) (l₁ l₂ : List String) :
    (o.retain l₁).objectClass = o.objectClass ∧ (o.retain l₁).uid = o.uid ∧
    (o.retain l₁).attributes.toList =
      ((o.attributes.toList.filter fun a => a.isUid || a.isName || l₁.any a.isNamed).map fun a =>
        if a.isUid && !l₁.any a.isNamed then ⟨uidName, a.values?⟩ else a) ∧
    (o.retain l₁).CarriesUid ∧ (o.retain l₁).attributes.contains nameName = true ∧
    (o.retain l₁).retain l₂ = o.retain (l₁.filter fun n => l₂.any (sameName n)) ∧
    (o.retain l₁).retain l₁ = o.retain l₁ ∧
    (o.retain l₁).retain l₂ = (o.retain l₂).retain l₁ ∧
    (l₁.Perm l₂ → o.retain l₁ = o.retain l₂) ∧
    ((∀ a ∈ o.attributes.toList, l₁.any a.isNamed = l₂.any a.isNamed) → o.retain l₁ = o.retain l₂) ∧
    ((∀ n ∈ l₁, l₂.any (sameName n) = true) → (o.retain l₂).retain l₁ = o.retain l₁ ∧
      ∀ a ∈ (o.retain l₁).attributes.toList, ∃ b ∈ (o.retain l₂).attributes.toList,
        b.values? = a.values? ∧ b.isNamed a.name = true ∧ (a.isUid = false → b = a)) := by
  have h := Draft.carriesUid_of_build hd
  refine ⟨rfl, rfl, toList_retain h l₁, h.retain l₁, contains_name_retain hd l₁, retain_retain o l₁ l₂,
    retain_self o l₁, retain_comm h l₁ l₂, fun hperm => ?_, retain_eq_of_any_eq h, fun hl =>
      ⟨retain_retain_of_subset hl h, fun a => exists_mem_retain_of_subset hl h⟩⟩
  exact retain_eq_of_any_eq h fun a _ => hperm.any_eq

theorem retain_is_projection_mail :
    let uid : Attribute := .single "__uid__" (.string "u1")
    let name := (Name.mk "ann").toAttribute
    let mail : Attribute := .single "mail" (.string "ann@x")
    let team : Attribute := .single "team" (.string "red")
    let d := Draft.empty.withAttributes [uid, name, mail, team]
    let o : ConnectorObject := ⟨.account, ⟨"u1"⟩, .ofList [uid, name, mail, team]⟩
    d.build = .ok o ∧
    (o.retain ["MAIL"]).attributes.toList = [name, (Uid.mk "u1").toAttribute, mail] ∧
    (o.retain ["MAIL"]).retain ["team"] = o.retain [] := by
  intro uid name mail team d o
  have hd : d.build = .ok o := by decide
  obtain ⟨-, -, hlist, -, -, htwice, -⟩ := retain_is_projection hd ["MAIL"] ["team"]
  exact ⟨hd, hlist.trans (by decide), htwice.trans (by decide)⟩

end ConnectorObject

end Provisioning
