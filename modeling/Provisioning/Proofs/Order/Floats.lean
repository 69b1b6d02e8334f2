import Mathlib.Data.Prod.Lex
import Provisioning.Value

/-! The order of numbers with a point. Each of them has its place on a line, where both zeros stand in the same, and
only what is not a number has none. Two numbers compare as their places do, `compareFloats_eq`, so what holds of a
linear order holds of them. -/

namespace Provisioning

open Float.Model (UnpackedFloat)

/-- A place on the line of numbers: the side it is on, then the exponent, then the digits. -/
abbrev Place : Type := ℤ ×ₗ ℤ ×ₗ ℤ

namespace Place

def on (side exponent digits : ℤ) : Place := toLex (side, toLex (exponent, digits))

/-- The further a number is from zero on the negative side, the earlier its place. -/
def ofUnpacked? : UnpackedFloat → Option Place
  | .notANumber => none
  | .infinity .negative => some (on (-2) 0 0)
  | .finite .negative m e _ => some (on (-1) (-e) (-m))
  | .zero _ => some (on 0 0 0)
  | .finite .positive m e _ => some (on 1 e m)
  | .infinity .positive => some (on 2 0 0)

def ofFloat? (x : Float) : Option Place := ofUnpacked? x.toModel.unpack

theorem compare_on (s e m s' e' m' : ℤ) :
    compare (on s e m) (on s' e' m') = (compare s s').then ((compare e e').then (compare m m')) := rfl

theorem compare_neg (a b : ℤ) : compare (-a) (-b) = (compare a b).swap := by
  rcases lt_trichotomy a b with h | rfl | h
  · rw [compare_gt_iff_gt.2 (Int.neg_lt_neg h), compare_lt_iff_lt.2 h]
    rfl
  · rw [compare_eq_iff_eq.2 rfl, compare_eq_iff_eq.2 rfl]
    rfl
  · rw [compare_lt_iff_lt.2 (Int.neg_lt_neg h), compare_gt_iff_gt.2 h]
    rfl

theorem compare_natCast (m n : ℕ) : compare (m : ℤ) n = compare m n := by
  simp only [compare, compareOfLessAndEq, Int.ofNat_lt, Int.natCast_inj]

/-- The order of what stands in two places; there is none where a place is missing. -/
def order? (p? q? : Option Place) : Option Ordering := p?.bind fun p => q?.map (compare p)

theorem compare_unpacked (u v : UnpackedFloat) : u.compare v = order? (ofUnpacked? u) (ofUnpacked? v) := by
  -- the sides settle all pairs but those of two numbers on the same side of zero
  rcases u with (_ | _) | _ | _ | ⟨_ | _, m, e, _⟩ <;> rcases v with (_ | _) | _ | _ | ⟨_ | _, m', e', _⟩ <;>
    try rfl
  · change some ((compare e e').then (compare m m')).swap = some (compare (on (-1) (-e) (-m)) (on (-1) (-e') (-m')))
    rw [compare_on, compare_neg e, compare_neg m, compare_natCast, Ordering.swap_then]
    rfl
  · change some ((compare e e').then (compare m m')) = some (compare (on 1 e m) (on 1 e' m'))
    rw [compare_on, compare_natCast]
    rfl

theorem order?_none_right (p? : Option Place) : order? p? none = none := by
  cases p? <;> rfl

theorem order?_swap (p? q? : Option Place) : order? q? p? = (order? p? q?).map Ordering.swap := by
  cases p? with
  | none => cases q? <;> rfl
  | some p =>
    cases q? with
    | none => rfl
    | some q => exact congrArg some Std.OrientedCmp.eq_swap

end Place

namespace Value

open Place

variable {x y : Float}

theorem lt_iff : x < y ↔ order? (ofFloat? x) (ofFloat? y) = some .lt := by
  unfold ofFloat?
  rw [← compare_unpacked]
  change decide ((x.toModel.unpack.compare y.toModel.unpack == some .lt) = true) = true ↔ _
  rw [decide_eq_true_eq, beq_iff_eq]

theorem beq_iff : (x == y) = true ↔ order? (ofFloat? x) (ofFloat? y) = some .eq := by
  unfold ofFloat?
  rw [← compare_unpacked]
  exact beq_iff_eq (a := x.toModel.unpack.compare y.toModel.unpack)

theorem beq_iff_exists_place : (x == y) = true ↔ ∃ p, ofFloat? x = some p ∧ ofFloat? y = some p := by
  rw [beq_iff]
  constructor
  · intro h
    cases hx : ofFloat? x with
    | none => simp [hx, order?] at h
    | some p =>
      cases hy : ofFloat? y with
      | none => simp [hx, hy, order?] at h
      | some q =>
        rw [hx, hy] at h
        obtain rfl := compare_eq_iff_eq.1 (Option.some_inj.1 h)
        exact ⟨p, rfl, rfl⟩
  · rintro ⟨p, hx, hy⟩
    rw [hx, hy]
    exact congrArg some (compare_eq_iff_eq.2 rfl)

theorem ofFloat?_eq_of_beq (h : (x == y) = true) : ofFloat? x = ofFloat? y := by
  obtain ⟨p, hx, hy⟩ := beq_iff_exists_place.1 h
  rw [hx, hy]

theorem compareFloats_eq (x y : Float) : compareFloats x y = order? (ofFloat? x) (ofFloat? y) := by
  unfold compareFloats
  simp only [lt_iff, beq_iff]
  rw [order?_swap (ofFloat? x) (ofFloat? y)]
  match order? (ofFloat? x) (ofFloat? y) with
  | none => rfl
  | some .lt => rfl
  | some .eq => rfl
  | some .gt => rfl

end Value

end Provisioning
