import Mathlib.Data.List.Perm.Basic
import Provisioning.Proofs.Lookups

/-! Sets as lists. A set lists its attributes in the order of their folded names, and no list but this one makes up the
set. A list in which no name occurs twice, case aside, makes a set that lists just its attributes. -/

namespace Provisioning

namespace AttributeSet

def Distinct (attributes : List Attribute) : Prop :=
  attributes.Pairwise fun a b => sameName a.name b.name = false

instance (attributes : List Attribute) : Decidable (Distinct attributes) :=
  inferInstanceAs (Decidable (attributes.Pairwise _))

theorem contains_iff {s : AttributeSet} {name : String} :
    s.contains name = true ↔ ∃ a ∈ s.toList, a.isNamed name = true := by
  rw [contains, get?, List.find?_isSome]
  exact exists_congr fun a => and_congr_right fun _ => by rw [decide_eq_true_iff, ← a.isNamed_iff]

theorem key_ne_iff (a b : Attribute) : sameName a.name b.name = false ↔ a.key ≠ b.key := by
  rw [Bool.eq_false_iff, Ne, sameName_iff]
  rfl

theorem firstRepeated?_eq_none (seen attributes : List Attribute) :
    firstRepeated? seen attributes = none ↔
      Distinct attributes ∧ ∀ a ∈ attributes, ∀ b ∈ seen, b.key ≠ a.key := by
  induction attributes generalizing seen with
  | nil => simp [firstRepeated?, Distinct]
  | cons a rest ih =>
    rw [firstRepeated?]
    split
    · next h =>
      obtain ⟨b, hb, he⟩ := List.any_eq_true.1 h
      simp only [reduceCtorEq, false_iff]
      exact fun h => h.2 a List.mem_cons_self b hb (by simpa using he)
    · next h =>
      have hseen : ∀ b ∈ seen, b.key ≠ a.key := fun b hb he => h (List.any_eq_true.2 ⟨b, hb, by simpa using he⟩)
      have hkey : (∀ b ∈ rest, sameName a.name b.name = false) ↔ ∀ b ∈ rest, a.key ≠ b.key :=
        forall₂_congr fun b _ => key_ne_iff a b
      rw [ih, Distinct, Distinct, List.pairwise_cons, hkey]
      constructor
      · intro ⟨hd, hr⟩
        exact ⟨⟨fun b hb => hr b hb a List.mem_cons_self, hd⟩, List.forall_mem_cons.2
          ⟨hseen, fun c hc b hb => hr c hc b (List.mem_cons_of_mem _ hb)⟩⟩
      · intro ⟨⟨ha, hd⟩, hr⟩
        exact ⟨hd, fun c hc => List.forall_mem_cons.2
          ⟨ha c hc, fun b hb => hr c (List.mem_cons_of_mem _ hc) b hb⟩⟩

/-- The first repetition is the first attribute that goes by the name of one before it. -/
theorem firstRepeated?_eq_some_iff {seen attributes : List Attribute} {a : Attribute} :
    firstRepeated? seen attributes = some a ↔ ∃ before after, attributes = before ++ a :: after ∧
      firstRepeated? seen before = none ∧ ∃ b ∈ seen ++ before, b.key = a.key := by
  induction attributes generalizing seen with
  | nil => simp [firstRepeated?]
  | cons c rest ih =>
    by_cases h : (seen.any (·.key == c.key)) = true
    · have hfirst (l : List Attribute) : firstRepeated? seen (c :: l) = some c := if_pos h
      rw [hfirst]
      constructor
      · rintro ⟨⟩
        obtain ⟨b, hb, hkey⟩ := List.any_eq_true.1 h
        exact ⟨[], rest, rfl, rfl, b, by simpa using hb, by simpa using hkey⟩
      · rintro ⟨_ | ⟨d, before⟩, after, hsplit, hnone, -⟩
        · rw [(List.cons.inj hsplit).1]
        · obtain ⟨rfl, -⟩ := List.cons.inj hsplit
          rw [hfirst] at hnone
          cases hnone
    · have hlater (l : List Attribute) : firstRepeated? seen (c :: l) = firstRepeated? (c :: seen) l := if_neg h
      rw [hlater, ih]
      constructor
      · rintro ⟨before, after, rfl, hnone, b, hb, hkey⟩
        exact ⟨c :: before, after, rfl, (hlater before).trans hnone, b, by simp at hb ⊢; tauto, hkey⟩
      · rintro ⟨_ | ⟨d, before⟩, after, hsplit, hnone, b, hb, hkey⟩
        · obtain ⟨rfl, -⟩ := List.cons.inj hsplit
          exact absurd (List.any_eq_true.2 ⟨b, by simpa using hb, by simpa using hkey⟩) h
        · obtain ⟨rfl, rfl⟩ := List.cons.inj hsplit
          exact ⟨before, after, rfl, (hlater before).symm.trans hnone, b, by simp at hb ⊢; tauto, hkey⟩

theorem insertSorted_perm {a : Attribute} {l : List Attribute} (h : ∀ b ∈ l, b.key ≠ a.key) :
    (insertSorted a l).Perm (a :: l) := by
  induction l with
  | nil => exact .refl _
  | cons b rest ih =>
    unfold insertSorted
    split
    · exact .refl _
    · split
      · next he => exact absurd he.symm (h b List.mem_cons_self)
      · exact ((ih fun c hc => h c (List.mem_cons_of_mem _ hc)).cons b).trans (.swap a b rest)

theorem entries_foldl_insert (attributes : List Attribute) (s : AttributeSet) (hd : Distinct attributes)
    (hs : ∀ a ∈ attributes, ∀ b ∈ s.entries, b.key ≠ a.key) :
    (attributes.foldl insert s).entries.Perm (attributes ++ s.entries) := by
  induction attributes generalizing s with
  | nil => exact .refl _
  | cons a rest ih =>
    have ⟨ha, hd⟩ := List.pairwise_cons.1 hd
    -- The attribute is new to the set, so it takes no other's place.
    have hp : (s.insert a).entries.Perm (a :: s.entries) := insertSorted_perm (hs a List.mem_cons_self)
    have hrest : ∀ c ∈ rest, ∀ b ∈ (s.insert a).entries, b.key ≠ c.key := by
      intro c hc b hb
      rcases List.mem_cons.1 (hp.mem_iff.1 hb) with rfl | hb
      · exact (key_ne_iff b c).1 (ha c hc)
      · exact hs c (List.mem_cons_of_mem _ hc) b hb
    exact (ih (s.insert a) hd hrest).trans ((hp.append_left rest).trans List.perm_middle)

theorem entries_ofList {attributes : List Attribute} (hd : Distinct attributes) :
    (ofList attributes).entries.Perm attributes := by
  simpa [ofList, empty] using entries_foldl_insert attributes empty hd (by simp [empty])

theorem distinct_entries (s : AttributeSet) : Distinct s.entries :=
  s.sorted.imp fun {a b} h => (key_ne_iff a b).2 fun e => String.lt_irrefl b.key (by rwa [e] at h)

theorem eq_of_perm {s t : AttributeSet} (h : s.entries.Perm t.entries) : s = t := by
  have heq := h.eq_of_pairwise
    (fun a b _ _ hab hba => absurd (String.lt_trans hab hba) (String.lt_irrefl a.key)) s.sorted t.sorted
  obtain ⟨l, _⟩ := s
  obtain ⟨m, _⟩ := t
  cases heq
  rfl

theorem ofList_entries (s : AttributeSet) : ofList s.entries = s := eq_of_perm (entries_ofList s.distinct_entries)

theorem ofAttributes_eq_ok_iff {attributes : List Attribute} {s : AttributeSet} :
    ofAttributes attributes = .ok s ↔ Distinct attributes ∧ s = ofList attributes := by
  have hdistinct : firstRepeated? [] attributes = none ↔ Distinct attributes := by
    simp [firstRepeated?_eq_none]
  rw [ofAttributes, ofDistinct, ← hdistinct]
  cases firstRepeated? [] attributes <;> simp [eq_comm]

/-- Other attributes make none, because of the first that goes by the name of one before it. -/
theorem ofAttributes_eq_error_iff {attributes : List Attribute} {e : Failure} :
    ofAttributes attributes = .error e ↔ ∃ before a after, attributes = before ++ a :: after ∧ Distinct before ∧
      (∃ b ∈ before, sameName b.name a.name = true) ∧ e = .invalidArgument (.duplicateAttribute a.name) := by
  have hrepeated (a : Attribute) : firstRepeated? [] attributes = some a ↔ ∃ before after,
      attributes = before ++ a :: after ∧ Distinct before ∧ ∃ b ∈ before, sameName b.name a.name = true := by
    simp [firstRepeated?_eq_some_iff, firstRepeated?_eq_none, sameName_iff, Attribute.key]
  have hcause : (∃ before a after, attributes = before ++ a :: after ∧ Distinct before ∧
      (∃ b ∈ before, sameName b.name a.name = true) ∧ e = .invalidArgument (.duplicateAttribute a.name)) ↔
      ∃ a, firstRepeated? [] attributes = some a ∧ e = .invalidArgument (.duplicateAttribute a.name) := by
    constructor
    · rintro ⟨before, a, after, hsplit, hdistinct, hb, rfl⟩
      exact ⟨a, (hrepeated a).2 ⟨before, after, hsplit, hdistinct, hb⟩, rfl⟩
    · rintro ⟨a, ha, rfl⟩
      obtain ⟨before, after, hsplit, hdistinct, hb⟩ := (hrepeated a).1 ha
      exact ⟨before, a, after, hsplit, hdistinct, hb, rfl⟩
  rw [hcause, ofAttributes, ofDistinct]
  cases firstRepeated? [] attributes <;> simp [eq_comm]

end AttributeSet

end Provisioning
