import Provisioning.Filter
import Provisioning.Proofs.Order.Nearest

/-! The order of attribute values. To compare two values the other way round reverses their order, and what is at most
something that is at most a third value is at most the third, with one exception: two integers that have the same
nearest number with a point lie both below it and above it, the larger below the smaller.
`order_consistent_unless_merged` says that there is no other, and that both integers then have more than 53 binary
digits. -/

namespace Provisioning

open Place

namespace Value

/-- There is an order between two values, and the first comes no later. -/
def AtMost (a b : Value) : Prop := (a.compare? b).any (· != .gt) = true

instance (a b : Value) : Decidable (a.AtMost b) := inferInstanceAs (Decidable (_ = true))

/-- Two different integers, the larger first, with the same nearest number between them. -/
inductive Merged : Value → Value → Value → Prop
  | intro {i k : Int64} {x : Float} (hlt : k < i) (hi : (nearestFloat i == x) = true)
      (hk : (x == nearestFloat k) = true) : Merged (integer i) (float x) (integer k)

/-- Where a value stands among the numbers with a point: an integer at the nearest. -/
def place? : Value → Option Place
  | float x => ofFloat? x
  | integer i => some (nearestTo i.toInt)
  | _ => none

/-- What it is for a value to be at most another, kind by kind. -/
inductive NoLater : Value → Value → Prop
  | strings {s t : String} (h : (compare s t).isLE = true) : NoLater (string s) (string t)
  | booleans {s t : Bool} (h : (compare s t).isLE = true) : NoLater (boolean s) (boolean t)
  | binaries {s t : List UInt8} (h : (compare s t).isLE = true) : NoLater (binary s) (binary t)
  | integers {i k : Int64} (h : (compare i k).isLE = true) : NoLater (integer i) (integer k)
  | numbers {a b : Value} {p q : Place} (hfloat : a.isFloat = true ∨ b.isFloat = true) (ha : a.place? = some p)
      (hb : b.place? = some q) (h : p ≤ q) : NoLater a b

variable {a b c : Value}

/-- Where one of two values has a point, they compare as their places do. -/
theorem compare?_eq_order? (h : a.isFloat = true ∨ b.isFloat = true) : a.compare? b = order? a.place? b.place? := by
  cases a with
  | float x =>
    cases b with
    | float y => exact compareFloats_eq x y
    | integer k =>
      change compareFloats x (nearestFloat k) = _
      rw [compareFloats_eq, ofFloat?_nearestFloat]
      rfl
    | _ => exact (order?_none_right _).symm
  | integer i =>
    cases b with
    | float y =>
      change compareFloats (nearestFloat i) y = _
      rw [compareFloats_eq, ofFloat?_nearestFloat]
      rfl
    | _ => simp [isFloat] at h
  | _ =>
    cases b with
    | float y => rfl
    | _ => simp [isFloat] at h

theorem compare?_swap (a b : Value) : b.compare? a = (a.compare? b).map Ordering.swap := by
  by_cases h : a.isFloat = true ∨ b.isFloat = true
  · rw [compare?_eq_order? h, compare?_eq_order? h.symm, order?_swap]
  · cases a <;> cases b <;> simp [isFloat] at h <;> try rfl
    all_goals exact congrArg some Std.OrientedCmp.eq_swap

theorem isLE_iff {o : Ordering} : (o != .gt) = true ↔ o.isLE = true := by cases o <;> decide

theorem atMost_iff : a.AtMost b ↔ NoLater a b := by
  constructor
  · intro h
    by_cases hfloat : a.isFloat = true ∨ b.isFloat = true
    · unfold AtMost at h
      rw [compare?_eq_order? hfloat] at h
      cases ha : a.place? with
      | none => simp [ha, order?] at h
      | some p =>
        cases hb : b.place? with
        | none => simp [ha, hb, order?] at h
        | some q =>
          refine .numbers hfloat ha hb ?_
          rw [ha, hb] at h
          exact compare_le_iff_le.1 (bne_iff_ne.1 h)
    · cases a <;> cases b <;> simp [isFloat] at hfloat <;> try cases h
      · exact .strings (isLE_iff.1 h)
      · exact .integers (isLE_iff.1 h)
      · exact .booleans (isLE_iff.1 h)
      · exact .binaries (isLE_iff.1 h)
  · rintro (h | h | h | h | ⟨hfloat, ha, hb, h⟩)
    · exact isLE_iff.2 h
    · exact isLE_iff.2 h
    · exact isLE_iff.2 h
    · exact isLE_iff.2 h
    · unfold AtMost
      rw [compare?_eq_order? hfloat, ha, hb]
      exact bne_iff_ne.2 (compare_le_iff_le.2 h)

theorem nearestTo_le_of_compare {i k : Int64} (h : (compare i k).isLE = true) :
    nearestTo i.toInt ≤ nearestTo k.toInt :=
  nearestTo_le (Int64.le_iff_toInt_le.1 (Std.isLE_compare.1 h))

/-- Between two integers lies a number with a point. -/
theorem integers_of_places {i k : Int64} {x : Float} {q : Place} (hq : ofFloat? x = some q)
    (hi : nearestTo i.toInt ≤ q) (hk : q ≤ nearestTo k.toInt) :
    NoLater (integer i) (integer k) ∨ Merged (integer i) (float x) (integer k) := by
  by_cases h : (compare i k).isLE = true
  · exact .inl (.integers h)
  · have hlt : k < i := by
      rw [Std.isLE_compare] at h
      exact Int64.not_le.1 h
    have hback : nearestTo k.toInt ≤ nearestTo i.toInt := nearestTo_le (Int64.lt_iff_toInt_lt.1 hlt).le
    have hqi := le_antisymm (hk.trans hback) hi
    have hqk := le_antisymm hk (hback.trans hi)
    refine .inr (.intro hlt (beq_iff_exists_place.2 ⟨q, ?_, hq⟩) (beq_iff_exists_place.2 ⟨q, hq, ?_⟩))
    · rw [ofFloat?_nearestFloat, hqi]
    · rw [ofFloat?_nearestFloat, hqk]

theorem isFloat_or_integer {p : Place} (h : a.place? = some p) :
    a.isFloat = true ∨ ∃ i, a = integer i ∧ p = nearestTo i.toInt := by
  cases a with
  | float x => exact .inl rfl
  | integer i =>
    cases h
    exact .inr ⟨i, rfl, rfl⟩
  | _ => cases h

theorem NoLater.trans (h : NoLater a b) (h' : NoLater b c) : NoLater a c ∨ Merged a b c := by
  cases h with
  | strings h =>
    cases h' with
    | strings h' => exact .inl (.strings (Std.TransCmp.isLE_trans h h'))
    | numbers _ hb => cases hb
  | booleans h =>
    cases h' with
    | booleans h' => exact .inl (.booleans (Std.TransCmp.isLE_trans h h'))
    | numbers _ hb => cases hb
  | binaries h =>
    cases h' with
    | binaries h' => exact .inl (.binaries (Std.TransCmp.isLE_trans h h'))
    | numbers _ hb => cases hb
  | integers h =>
    cases h' with
    | integers h' => exact .inl (.integers (Std.TransCmp.isLE_trans h h'))
    | numbers hfloat hb hc h' =>
      cases hb
      exact .inl (.numbers (.inr (hfloat.resolve_left nofun)) rfl hc ((nearestTo_le_of_compare h).trans h'))
  | numbers hfloat ha hb h =>
    cases h' with
    | integers h' =>
      cases hb
      exact .inl (.numbers (.inl (hfloat.resolve_right nofun)) ha rfl (h.trans (nearestTo_le_of_compare h')))
    | numbers hfloat' hb' hc h' =>
      obtain rfl := Option.some_inj.1 (hb.symm.trans hb')
      rcases isFloat_or_integer ha with haf | ⟨i, rfl, rfl⟩
      · exact .inl (.numbers (.inl haf) ha hc (h.trans h'))
      · rcases isFloat_or_integer hc with hcf | ⟨k, rfl, rfl⟩
        · exact .inl (.numbers (.inr hcf) ha hc (h.trans h'))
        · -- neither end has a point, so the middle has one
          cases b with
          | float x => exact integers_of_places hb h h'
          | _ => cases hfloat.resolve_left nofun
    | _ => cases hb

theorem Merged.compare? (h : Merged a b c) : a.compare? c = some .gt := by
  obtain ⟨hlt, -, -⟩ := h
  exact congrArg some (Std.compare_eq_gt.2 hlt)

/-- Only integers with more than 53 binary digits are merged. -/
theorem Merged.large (h : Merged a b c) : ∃ i k : Int64, a = integer i ∧ c = integer k ∧
    2 ^ 53 ≤ i.toInt.natAbs ∧ 2 ^ 53 ≤ k.toInt.natAbs := by
  obtain @⟨i, k, x, hlt, hi, hk⟩ := h
  have hplaces : nearestTo i.toInt = nearestTo k.toInt := by
    have h := (ofFloat?_eq_of_beq hi).trans (ofFloat?_eq_of_beq hk)
    rwa [ofFloat?_nearestFloat, ofFloat?_nearestFloat, Option.some_inj] at h
  refine ⟨i, k, rfl, rfl, ?_⟩
  by_contra hsmall
  have hlt := nearestTo_lt (Int64.lt_iff_toInt_lt.1 hlt) (by omega)
  rw [hplaces] at hlt
  exact lt_irrefl _ hlt

/-- Two values with a value between them have an order, and it is the wrong way round only for merged integers. -/
theorem exists_order (h : a.AtMost b) (h' : b.AtMost c) : ∃ o, a.compare? c = some o ∧ (o = .gt ↔ Merged a b c) := by
  rcases (atMost_iff.1 h).trans (atMost_iff.1 h') with hle | hmerged
  · obtain ⟨o, ho, hne⟩ := (Option.any_eq_true _ _).1 (atMost_iff.2 hle)
    have hne := bne_iff_ne.1 hne
    refine ⟨o, ho, iff_of_false hne fun hmerged => hne ?_⟩
    exact Option.some_inj.1 (ho.symm.trans hmerged.compare?)
  · exact ⟨.gt, hmerged.compare?, iff_of_true rfl hmerged⟩

/-- An object is found by a bound if it has a single value under the name, and this is at most the bound. -/
theorem accepts_lessThanOrEqual_iff {o : ConnectorObject} {name : String} {bound : Value} :
    (Filter.leaf .lessThanOrEqual (.single name bound)).accepts o = true ↔
      ∃ v, (o.get? name).bind Attribute.singleValue? = some v ∧ v.AtMost bound := by
  have hholds (actual : Attribute) : Comparison.lessThanOrEqual.holds (.single name bound) actual =
      actual.singleValue?.any fun v => (v.compare? bound).any (· != .gt) := by
    change (actual.singleValue?.bind fun v => v.compare? bound).any _ = _
    cases actual.singleValue? <;> rfl
  rw [Filter.accepts_leaf, Filter.acceptsLeaf, Option.any_eq_true]
  simp only [hholds, Option.any_eq_true, Option.bind_eq_some_iff]
  constructor
  · rintro ⟨actual, hget, v, hv, o, ho⟩
    exact ⟨v, ⟨actual, hget, hv⟩, (Option.any_eq_true _ _).2 ⟨o, ho⟩⟩
  · rintro ⟨v, ⟨actual, hget, hv⟩, hle⟩
    exact ⟨actual, hget, v, hv, (Option.any_eq_true _ _).1 hle⟩

/-- What is found by a bound is found by every bound that this one is at most, unless it is merged in this one. -/
theorem accepts_of_atMost {o : ConnectorObject} {name : String} {bound bound' : Value} (hbound : bound.AtMost bound')
    (hfound : (Filter.leaf .lessThanOrEqual (.single name bound)).accepts o = true) :
    ∃ v, (o.get? name).bind Attribute.singleValue? = some v ∧
      ((Filter.leaf .lessThanOrEqual (.single name bound')).accepts o = true ↔ ¬ Merged v bound bound') := by
  obtain ⟨v, hv, hle⟩ := accepts_lessThanOrEqual_iff.1 hfound
  refine ⟨v, hv, ?_⟩
  obtain ⟨order, horder, hgt⟩ := exists_order hle hbound
  have hatMost : v.AtMost bound' ↔ order ≠ .gt := by
    unfold AtMost
    rw [horder, Option.any_some, bne_iff_ne]
  rw [accepts_lessThanOrEqual_iff, ← hgt]
  constructor
  · rintro ⟨w, hw, hlew⟩
    obtain rfl := Option.some_inj.1 (hv.symm.trans hw)
    exact hatMost.1 hlew
  · intro hne
    exact ⟨v, hv, hatMost.2 hne⟩

/-- The order of values turns round, and carries over, unless the outer two of three values are integers merged
in the middle one; so what is found by a bound is found by every later one. -/
theorem order_consistent_unless_merged (a b c : Value) :
    b.compare? a = (a.compare? b).map Ordering.swap ∧
    (a.AtMost b → b.AtMost c → ∃ o, a.compare? c = some o ∧ (o = .gt ↔ Merged a b c)) ∧
    (Merged a b c → ∃ i k : Int64, a = integer i ∧ c = integer k ∧
      2 ^ 53 ≤ i.toInt.natAbs ∧ 2 ^ 53 ≤ k.toInt.natAbs) ∧
    ∀ (o : ConnectorObject) (name : String), b.AtMost c →
      (Filter.leaf .lessThanOrEqual (.single name b)).accepts o = true →
      ∃ v, (o.get? name).bind Attribute.singleValue? = some v ∧
        ((Filter.leaf .lessThanOrEqual (.single name c)).accepts o = true ↔ ¬ Merged v b c) :=
  ⟨compare?_swap a b, exists_order, Merged.large, fun _ _ => accepts_of_atMost⟩

/-- An account with a number that no number with a point holds: the nearest is one less. -/
def numbered : ConnectorObject :=
  ⟨.account, ⟨"u1"⟩, .ofList [.single uidName (.string "u1"), .single "number" (.integer 9007199254740993)]⟩

/-- It is found by the bound `2 ^ 53` with a point, but not by the same bound without one. -/
theorem order_consistent_unless_merged_neighbours :
    let a := integer 9007199254740993
    let b := float 9007199254740992
    let c := integer 9007199254740992
    a.AtMost b ∧ b.AtMost c ∧ Merged a b c ∧ a.compare? c = some .gt ∧
      (Filter.leaf .lessThanOrEqual (.single "Number" b)).accepts numbered = true ∧
      (Filter.leaf .lessThanOrEqual (.single "Number" c)).accepts numbered = false ∧
      ∃ i k : Int64, a = integer i ∧ c = integer k ∧ 2 ^ 53 ≤ i.toInt.natAbs ∧ 2 ^ 53 ≤ k.toInt.natAbs := by
  intro a b c
  obtain ⟨-, htransitive, hlarge, hbounds⟩ := order_consistent_unless_merged a b c
  have hab : a.AtMost b := by decide
  have hbc : b.AtMost c := by decide
  have hmerged : Merged a b c := .intro (by decide) (by decide) (by decide)
  have hfound : (Filter.leaf .lessThanOrEqual (.single "Number" b)).accepts numbered = true := by decide +kernel
  obtain ⟨o, ho, hgt⟩ := htransitive hab hbc
  obtain ⟨v, hv, hfound'⟩ := hbounds numbered "Number" hbc hfound
  have hnumber : v = a := by
    have hget : (numbered.get? "Number").bind Attribute.singleValue? = some a := by decide +kernel
    exact Option.some_inj.1 (hv.symm.trans hget)
  rw [hnumber] at hfound'
  refine ⟨hab, hbc, hmerged, ?_, hfound, ?_, hlarge hmerged⟩
  · rw [ho, hgt.2 hmerged]
  · rw [Bool.eq_false_iff, ne_eq, hfound', not_not]
    exact hmerged

end Value

end Provisioning
