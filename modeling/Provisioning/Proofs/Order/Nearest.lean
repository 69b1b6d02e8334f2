import Mathlib
import Provisioning.Proofs.Order.Floats

/-! The number with a point nearest to an integer. It keeps the leading 53 binary digits of the integer and rounds the
rest, so no integer has a nearest number below that of a smaller one. Below `2 ^ 53` nothing is dropped, and from there
on two integers may have the same nearest number. -/

namespace Provisioning

open Float.Model (Format UnpackedFloat)
open Float.Model.UnpackedFloat

namespace Rounding

def whole (m : ℕ) : ExtendedMantissa := ⟨m, false, false⟩

/-- Digits together with what is known of the dropped ones, which comes to less than one more in the last digit. -/
def quarters (em : ExtendedMantissa) : ℕ := 4 * em.mantissa + 2 * em.roundBit.toNat + em.stickyBit.toNat

variable {a b : ExtendedMantissa}

theorem quarters_shiftRightOne (em : ExtendedMantissa) :
    quarters em.shiftRightOne = 2 * em.mantissa + (em.roundBit || em.stickyBit).toNat := by
  obtain ⟨m, r, s⟩ := em
  rcases Nat.mod_two_eq_zero_or_one m with h | h <;>
    simp [quarters, ExtendedMantissa.shiftRightOne, h] <;> omega

theorem quarters_shiftRightOne_le (h : quarters a ≤ quarters b) :
    quarters a.shiftRightOne ≤ quarters b.shiftRightOne := by
  rw [quarters_shiftRightOne, quarters_shiftRightOne]
  obtain ⟨m, r, s⟩ := a
  obtain ⟨m', r', s'⟩ := b
  unfold quarters at h
  cases r <;> cases s <;> cases r' <;> cases s' <;> simp at h ⊢ <;> omega

theorem quarters_shift_le (h : quarters a ≤ quarters b) (k : ℕ) : quarters (a >>> k) ≤ quarters (b >>> k) := by
  induction k with
  | zero => exact h
  | succ k ih => exact quarters_shiftRightOne_le ih

theorem mantissa_shift (em : ExtendedMantissa) (k : ℕ) : (em >>> k).mantissa = em.mantissa / 2 ^ k := by
  induction k with
  | zero => exact (Nat.div_one _).symm
  | succ k ih =>
    change (em >>> k).mantissa / 2 = _
    rw [ih, Nat.div_div_eq_div_mul, Nat.pow_succ]

/-- Zeros are dropped without a trace. -/
theorem whole_shift (m k : ℕ) : whole (m * 2 ^ k) >>> k = whole m := by
  induction k generalizing m with
  | zero => exact congrArg whole (Nat.mul_one m)
  | succ k ih =>
    change (whole (m * 2 ^ (k + 1)) >>> k).shiftRightOne = _
    rw [Nat.pow_succ', ← Nat.mul_assoc, ih]
    simp [whole, ExtendedMantissa.shiftRightOne]

theorem roundedMantissa_le (h : quarters a ≤ quarters b) : a.roundedMantissa ≤ b.roundedMantissa := by
  obtain ⟨m, r, s⟩ := a
  obtain ⟨m', r', s'⟩ := b
  unfold quarters at h
  cases r <;> cases s <;> cases r' <;> cases s' <;>
    simp [ExtendedMantissa.roundedMantissa, ExtendedMantissa.accuracy, Accuracy.roundToNearestEven] at h ⊢ <;> omega

theorem roundedMantissa_bounds (em : ExtendedMantissa) :
    em.mantissa ≤ em.roundedMantissa ∧ em.roundedMantissa ≤ em.mantissa + 1 := by
  obtain ⟨m, r, s⟩ := em
  cases r <;> cases s <;>
    simp [ExtendedMantissa.roundedMantissa, ExtendedMantissa.accuracy, Accuracy.roundToNearestEven]
  omega

theorem roundedMantissa_whole (m : ℕ) : (whole m).roundedMantissa = m := rfl

/-- To have 53 digits, all but as many must go. -/
theorem shiftToTargetExponent_eq {m k : ℕ} {e : ℤ} (hm : m.log2 = 52 + k) (he : -1074 ≤ e + k) :
    shiftToTargetExponent .binary64 m e .exact = (whole m >>> k, e + k) := by
  have htarget : Format.binary64.targetExponent (Float.Model.totalExponent m e) = e + k := by
    simp only [Format.targetExponent, Float.Model.totalExponent, Format.mantissaBits, Format.minExponent, hm]
    omega
  have hshift : (e + k - e).toNat = k := by omega
  unfold shiftToTargetExponent shiftToExponent
  simp only [htarget, hshift]
  rfl

/-- Rounding up may carry into one more digit, which moves the exponent. -/
def carry (r : ℕ) (e : ℤ) : ℕ × ℤ := if r < 2 ^ 53 then (r, e) else (2 ^ 52, e + 1)

theorem carry_pos {r : ℕ} (h : 2 ^ 52 ≤ r) (e : ℤ) : 0 < (carry r e).1 := by
  unfold carry
  split <;> dsimp only <;> omega

theorem rounded_bounds {m k : ℕ} (hm : m.log2 = 52 + k) :
    2 ^ 52 ≤ (whole m >>> k).roundedMantissa ∧ (whole m >>> k).roundedMantissa ≤ 2 ^ 53 := by
  have hne : m ≠ 0 := by
    rintro rfl
    rw [Nat.log2_zero] at hm
    omega
  obtain ⟨hlo, hhi⟩ := (Nat.log2_eq_iff hne).1 hm
  rw [Nat.add_right_comm, Nat.pow_add, ← Nat.div_lt_iff_lt_mul (Nat.two_pow_pos k)] at hhi
  rw [Nat.pow_add, ← Nat.le_div_iff_mul_le (Nat.two_pow_pos k)] at hlo
  have hr := roundedMantissa_bounds (whole m >>> k)
  rw [mantissa_shift] at hr
  change m / 2 ^ k ≤ _ ∧ _ ≤ m / 2 ^ k + 1 at hr
  omega

theorem log2_mul_two_pow {m : ℕ} (hm : 0 < m) (k : ℕ) : (m * 2 ^ k).log2 = m.log2 + k := by
  have hk := Nat.two_pow_pos k
  obtain ⟨hlo, hhi⟩ := (Nat.log2_eq_iff hm.ne').1 rfl
  rw [Nat.log2_eq_iff (Nat.mul_pos hm hk).ne', Nat.add_right_comm, Nat.pow_add, Nat.pow_add _ (m.log2 + 1)]
  exact ⟨Nat.mul_le_mul_right _ hlo, Nat.mul_lt_mul_of_pos_right hhi hk⟩

theorem log2_of_bounds {r : ℕ} (h : 2 ^ 52 ≤ r) (h' : r < 2 ^ 53) : r.log2 = 52 :=
  (Nat.log2_eq_iff (by omega)).2 ⟨h, h'⟩

/-- Digits that a carry made too many lose a zero. -/
theorem shiftToTargetExponent_carry {r : ℕ} {e : ℤ} (h : 2 ^ 52 ≤ r) (h' : r ≤ 2 ^ 53) (he : -1074 ≤ e) :
    shiftToTargetExponent .binary64 r e .exact = (whole (carry r e).1, (carry r e).2) := by
  unfold carry
  split
  · next hlt =>
    rw [shiftToTargetExponent_eq (k := 0) (log2_of_bounds h hlt) (by omega)]
    exact congrArg (Prod.mk _) (Int.add_zero e)
  · next hge =>
    obtain rfl : r = 2 ^ 53 := by omega
    rw [shiftToTargetExponent_eq (k := 1) Nat.log2_two_pow (by omega)]
    exact congrArg (Prod.mk · _) (whole_shift (2 ^ 52) 1)

/-- A number is rounded to 53 digits once, and a carry asks for no second rounding. -/
theorem roundWithAccuracy_eq (s : Sign) {m k : ℕ} {e : ℤ} (hm : m.log2 = 52 + k) (he : -1074 ≤ e + k) :
    let r := carry (whole m >>> k).roundedMantissa (e + k)
    ∃ hr : 0 < r.1, roundWithAccuracy .binary64 s m e .exact = .finite s r.1 r.2 hr := by
  intro r
  have hbounds := rounded_bounds hm
  have hr : 0 < r.1 := carry_pos hbounds.1 _
  refine ⟨hr, ?_⟩
  unfold roundWithAccuracy
  simp only [shiftToTargetExponent_eq hm he, shiftToTargetExponent_carry hbounds.1 hbounds.2 he]
  exact dif_neg hr.ne'

/-- Digits followed by zeros only stay as they are. -/
theorem roundWithAccuracy_exact (s : Sign) {m : ℕ} (k : ℕ) {e : ℤ} (hm : 0 < m) (h : 2 ^ 52 ≤ m) (h' : m < 2 ^ 53)
    (he : -1074 ≤ e) :
    roundWithAccuracy .binary64 s (m * 2 ^ k) (e - k) .exact = .finite s m e hm := by
  have hlog : (m * 2 ^ k).log2 = 52 + k := by rw [log2_mul_two_pow hm, log2_of_bounds h h']
  obtain ⟨hr, heq⟩ := roundWithAccuracy_eq s hlog (e := e - k) (by omega)
  rw [heq]
  simp only [whole_shift, roundedMantissa_whole, carry, if_pos h', Int.sub_add_cancel]

theorem toNat_one_append (digits : BitVec 52) : (1#1 ++ digits).toNat = 2 ^ 52 + digits.toNat := by
  rw [BitVec.toNat_append, ← Nat.shiftLeft_add_eq_or_of_lt digits.isLt]
  rfl

/-- The first digit is not stored: it is there unless the exponent says otherwise. -/
theorem unpack_packComponents (s : Sign) {exponent : BitVec 11} (digits : BitVec 52) (h : exponent ≠ 0#11)
    (h' : exponent ≠ -1#11) :
    unpack .binary64 (packComponents .binary64 s exponent digits) =
      .finite s (2 ^ 52 + digits.toNat) (exponent.toNat - 1075) (by omega) := by
  unfold unpack
  simp only [unpackMantissa_packComponents, unpackExponent_packComponents, unpackSign_packComponents,
    Sign.ofBitVec_toBitVec, if_neg h, if_neg h', toNat_one_append]
  rfl

/-- Numbers with 53 digits are packed without loss. -/
theorem unpack_pack (s : Sign) {m : ℕ} {e : ℤ} (hm : 0 < m) (h : 2 ^ 52 ≤ m) (h' : m < 2 ^ 53) (he : -1074 ≤ e)
    (he' : e ≤ 971) :
    unpack .binary64 (pack .binary64 (.finite s m e hm)) = .finite s m e hm := by
  have hpack : pack .binary64 (.finite s m e hm) =
      packComponents .binary64 s (.ofNat 11 (e + 1075).toNat) (.ofNat 52 m) := by
    have hexponent : (e + Format.binary64.exponentBias + Format.binary64.mantissaBitsWithoutImplicit).toNat =
        (e + 1075).toNat := by
      change (e + 1023 + 52).toNat = _
      omega
    unfold pack
    simp only [hexponent, log2_of_bounds h h']
    rw [if_neg (by omega)]
    rfl
  have hexponent : (BitVec.ofNat 11 (e + 1075).toNat).toNat = (e + 1075).toNat :=
    Nat.mod_eq_of_lt (by omega)
  have hdigits : 2 ^ 52 + (BitVec.ofNat 52 m).toNat = m := by
    change 2 ^ 52 + m % 2 ^ 52 = _
    omega
  have hstored : ((e + 1075).toNat : ℤ) - 1075 = e := by omega
  rw [hpack, unpack_packComponents]
  · simp only [hexponent, hdigits, hstored]
  · intro hzero
    rw [hzero, BitVec.toNat_zero] at hexponent
    omega
  · intro hones
    rw [hones, BitVec.neg_one_eq_allOnes, BitVec.toNat_allOnes] at hexponent
    omega

def digits (n : ℕ) : ℕ := (whole (n * 2 ^ 53) >>> (n.log2 + 1)).roundedMantissa

def nearest (n : ℕ) : ℕ × ℤ := carry (digits n) (n.log2 - 52)

variable {n n' : ℕ}

theorem log2_scaled (hn : 0 < n) : (n * 2 ^ 53).log2 = 52 + (n.log2 + 1) := by
  rw [log2_mul_two_pow hn]
  omega

theorem digits_bounds (hn : 0 < n) : 2 ^ 52 ≤ digits n ∧ digits n ≤ 2 ^ 53 := rounded_bounds (log2_scaled hn)

theorem log2_le_of_lt (hn : 0 < n) (h : n < 2 ^ 53) : n.log2 ≤ 52 := by
  have := (Nat.log2_lt hn.ne').2 h
  omega

theorem digits_eq (hn : 0 < n) (h : n < 2 ^ 53) : digits n = n * 2 ^ (52 - n.log2) := by
  have hlog := log2_le_of_lt hn h
  have hsplit : n * 2 ^ 53 = n * 2 ^ (52 - n.log2) * 2 ^ (n.log2 + 1) := by
    rw [Nat.mul_assoc, ← Nat.pow_add]
    congr 2
    omega
  rw [digits, hsplit, whole_shift, roundedMantissa_whole]

theorem digits_lt (hn : 0 < n) (h : n < 2 ^ 53) : digits n < 2 ^ 53 := by
  have hlog := log2_le_of_lt hn h
  have hlt := Nat.mul_lt_mul_of_pos_right (Nat.lt_log2_self (n := n)) (Nat.two_pow_pos (52 - n.log2))
  rw [← Nat.pow_add, ← digits_eq hn h] at hlt
  have hsum : n.log2 + 1 + (52 - n.log2) = 53 := by omega
  rwa [hsum] at hlt

theorem nearest_eq (hn : 0 < n) (h : n < 2 ^ 53) : nearest n = (digits n, (n.log2 : ℤ) - 52) := by
  rw [nearest, carry, if_pos (digits_lt hn h)]

theorem nearest_bounds (hn : 0 < n) :
    2 ^ 52 ≤ (nearest n).1 ∧ (nearest n).1 < 2 ^ 53 ∧
      (n.log2 : ℤ) - 52 ≤ (nearest n).2 ∧ (nearest n).2 ≤ (n.log2 : ℤ) - 51 := by
  have h := digits_bounds hn
  unfold nearest carry
  split <;> dsimp only <;> omega

theorem unpack_one : Float.exactlyRepresentablePowersOfTen[0].toModel.unpack =
    .finite .positive (2 ^ 52) (-52) (by decide) := by
  have hone : Float.exactlyRepresentablePowersOfTen[0] = Float.ofBits 0x3FF0000000000000 := rfl
  rw [hone]
  rfl

/-- At most 64 binary digits leave the exponent in range. -/
theorem nearest_exponent_bounds (hn : 0 < n) (h : n < 2 ^ 64) : -1074 ≤ (nearest n).2 ∧ (nearest n).2 ≤ 971 := by
  have hbounds := nearest_bounds hn
  have hlog : n.log2 < 64 := (Nat.log2_lt hn.ne').2 h
  omega

theorem ofNat_eq_of_lt (h : n < 2 ^ 53) :
    (Float.ofNat n).toModel.unpack =
      unpack .binary64 (pack .binary64 (mul .binary64
        (unpack .binary64 (pack .binary64 (ofNat .binary64 n))) (.finite .positive (2 ^ 52) (-52) (by decide)))) := by
  have hword : n.toUInt64.toNat = n := Nat.mod_eq_of_lt (by omega)
  change (Float.ofScientific n false 0).toModel.unpack = _
  unfold Float.ofScientific
  rw [dif_pos ⟨h, by omega⟩]
  change unpack .binary64 (pack .binary64 (mul .binary64
    (unpack .binary64 (pack .binary64 (ofNat .binary64 n.toUInt64.toNat))) _)) = _
  rw [hword, unpack_one]

theorem ofNat_eq_of_ge (h : 2 ^ 53 ≤ n) :
    (Float.ofNat n).toModel.unpack =
      unpack .binary64 (pack .binary64 (roundWithAccuracy .binary64 .positive (n * 2 ^ 53) (-53) .exact)) := by
  change (Float.ofScientific n false 0).toModel.unpack = _
  unfold Float.ofScientific
  rw [dif_neg (by omega)]
  change unpack .binary64 (pack .binary64 (ofScientific .binary64 n 0)) = _
  have hexponents : (2 : ℤ) ^ Format.binary64.exponentBits = 2048 := rfl
  unfold UnpackedFloat.ofScientific
  rw [hexponents, dif_neg (by omega), if_neg (by omega), if_neg (by omega), if_pos (by omega)]
  change unpack .binary64 (pack .binary64 (roundWithAccuracy .binary64 .positive (n <<< 53 * 1) (-53) .exact)) = _
  rw [Nat.shiftLeft_eq, Nat.mul_one]

theorem ofNat_eq (hn : 0 < n) (h : n < 2 ^ 53) :
    ∃ hm : 0 < digits n, ofNat .binary64 n = .finite .positive (digits n) (n.log2 - 52) hm := by
  have hlog := log2_le_of_lt hn h
  have hm : 0 < digits n := Nat.lt_of_lt_of_le (by decide) (digits_bounds hn).1
  refine ⟨hm, ?_⟩
  have htarget : Format.binary64.targetExponent (Float.Model.totalExponent n 0) = (n.log2 : ℤ) - 52 := by
    simp only [Format.targetExponent, Float.Model.totalExponent, Format.mantissaBits, Format.minExponent]
    omega
  have hfilled : decreaseExponent n 0 ((n.log2 : ℤ) - 52) = (digits n * 2 ^ 0, (n.log2 : ℤ) - 52 - (0 : ℕ)) := by
    have hshift : (0 - ((n.log2 : ℤ) - 52)).toNat = 52 - n.log2 := by omega
    unfold decreaseExponent
    simp only [hshift, Nat.shiftLeft_eq, ← digits_eq hn h, Nat.pow_zero, Nat.mul_one, Prod.mk.injEq, true_and]
    omega
  have hpositive : compare (n : ℤ) 0 = .gt := Int.compare_eq_gt.2 (by omega)
  unfold ofNat ofInt UnpackedFloat.normalize
  simp only [hpositive, Int.toNat_natCast]
  unfold UnpackedFloat.round
  simp only [htarget, hfilled]
  exact roundWithAccuracy_exact .positive 0 hm (digits_bounds hn).1 (digits_lt hn h) (by omega)

theorem unpack_ofNat (hn : 0 < n) (h : n < 2 ^ 64) :
    ∃ hm : 0 < (nearest n).1, (Float.ofNat n).toModel.unpack = .finite .positive (nearest n).1 (nearest n).2 hm := by
  obtain ⟨hlo, hhi, -⟩ := nearest_bounds hn
  obtain ⟨he, he'⟩ := nearest_exponent_bounds hn h
  have hm : 0 < (nearest n).1 := by omega
  refine ⟨hm, ?_⟩
  have hpacked := unpack_pack .positive hm hlo hhi he he'
  -- a small integer is taken as it is and multiplied by one, a large one is rounded
  by_cases hsmall : n < 2 ^ 53
  · obtain ⟨hd, hexact⟩ := ofNat_eq hn hsmall
    simp only [nearest_eq hn hsmall] at hpacked ⊢
    rw [ofNat_eq_of_lt hsmall, hexact, hpacked]
    change unpack .binary64 (pack .binary64
      (roundWithAccuracy .binary64 .positive (digits n * 2 ^ 52) ((n.log2 : ℤ) - 52 - (52 : ℕ)) .exact)) = _
    rw [roundWithAccuracy_exact .positive 52 hd (digits_bounds hn).1 (digits_lt hn hsmall) (by omega), hpacked]
  · obtain ⟨hr, hround⟩ := roundWithAccuracy_eq .positive (log2_scaled hn) (e := -53) (by omega)
    have hnearest : carry (whole (n * 2 ^ 53) >>> (n.log2 + 1)).roundedMantissa (-53 + (n.log2 + 1 : ℕ)) = nearest n := by
      unfold nearest digits
      congr 1
      omega
    rw [ofNat_eq_of_ge (by omega), hround]
    simp only [hnearest]
    exact hpacked

theorem log2_le_log2 (hn : 0 < n) (h : n ≤ n') : n.log2 ≤ n'.log2 :=
  (Nat.le_log2 (by omega)).2 ((Nat.log2_self_le hn.ne').trans h)

theorem digits_le (h : n ≤ n') (hlog : n.log2 = n'.log2) : digits n ≤ digits n' := by
  have hscaled : quarters (whole (n * 2 ^ 53)) ≤ quarters (whole (n' * 2 ^ 53)) := by
    simp only [quarters, whole]
    omega
  unfold digits
  rw [hlog]
  exact roundedMantissa_le (quarters_shift_le hscaled _)

theorem nearest_le (hn : 0 < n) (h : n ≤ n') :
    (nearest n).2 < (nearest n').2 ∨ (nearest n).2 = (nearest n').2 ∧ (nearest n).1 ≤ (nearest n').1 := by
  have hdigits := digits_bounds hn
  have hdigits' := digits_bounds (n := n') (by omega)
  -- either the larger one has more digits, or both are cut after the same one
  have hcases : n.log2 < n'.log2 ∨ n.log2 = n'.log2 ∧ digits n ≤ digits n' :=
    (Nat.lt_or_eq_of_le (log2_le_log2 hn h)).imp_right fun hlog => ⟨hlog, digits_le h hlog⟩
  unfold nearest carry
  split <;> split <;> dsimp only <;> omega

/-- An integer with at most 53 digits shares its nearest number with no larger one. -/
theorem nearest_lt (hn : 0 < n) (h : n < n') (hsmall : n < 2 ^ 53) :
    (nearest n).2 < (nearest n').2 ∨ (nearest n).2 = (nearest n').2 ∧ (nearest n).1 < (nearest n').1 := by
  have hbounds' := nearest_bounds (n := n') (by omega)
  rw [nearest_eq hn hsmall]
  rcases Nat.lt_or_eq_of_le (log2_le_log2 hn h.le) with hlog | hlog
  · left
    dsimp only
    omega
  · -- with as many digits the larger one is small as well
    have hsmall' : n' < 2 ^ 53 := by
      have := log2_le_of_lt hn hsmall
      exact (Nat.log2_lt (by omega)).1 (by omega)
    have hlt := Nat.mul_lt_mul_of_pos_right h (Nat.two_pow_pos (52 - n.log2))
    rw [nearest_eq (by omega) hsmall', digits_eq hn hsmall, digits_eq (by omega) hsmall', ← hlog]
    exact .inr ⟨rfl, hlt⟩

end Rounding

namespace Place

open Rounding

def nearestTo (i : ℤ) : Place := on i.sign (i.sign * (nearest i.natAbs).2) (i.sign * (nearest i.natAbs).1)

theorem ofFloat?_ofInt {i : ℤ} (h : i.natAbs < 2 ^ 64) : ofFloat? (Float.ofInt i) = some (nearestTo i) := by
  match i with
  | .ofNat 0 => rfl
  | .ofNat (n + 1) =>
    obtain ⟨hm, hunpack⟩ := unpack_ofNat (Nat.succ_pos n) h
    change ofUnpacked? (Float.ofNat (n + 1)).toModel.unpack = some (on 1 (1 * _) (1 * _))
    rw [hunpack, Int.one_mul, Int.one_mul]
    rfl
  | .negSucc n =>
    obtain ⟨hm, hunpack⟩ := unpack_ofNat (Nat.succ_pos n) h
    obtain ⟨hlo, hhi, -⟩ := nearest_bounds (Nat.succ_pos n)
    obtain ⟨he, he'⟩ := nearest_exponent_bounds (Nat.succ_pos n) h
    change ofUnpacked? (unpack .binary64 (pack .binary64 (Float.ofNat (n + 1)).toModel.unpack.neg)) =
      some (on (-1) (-1 * _) (-1 * _))
    rw [hunpack, Int.neg_one_mul, Int.neg_one_mul]
    change ofUnpacked? (unpack .binary64 (pack .binary64 (.finite .negative _ _ hm))) = _
    rw [unpack_pack .negative hm hlo hhi he he']
    rfl

theorem ofFloat?_nearestFloat (i : Int64) : ofFloat? (Value.nearestFloat i) = some (nearestTo i.toInt) := by
  have h := i.toInt_lt
  have h' := i.le_toInt
  exact ofFloat?_ofInt (by omega)

theorem on_le_on {s e m s' e' m' : ℤ} :
    on s e m ≤ on s' e' m' ↔ s < s' ∨ s = s' ∧ (e < e' ∨ e = e' ∧ m ≤ m') := by
  unfold on
  simp only [Prod.Lex.toLex_le_toLex]

theorem on_lt_on {s e m s' e' m' : ℤ} :
    on s e m < on s' e' m' ↔ s < s' ∨ s = s' ∧ (e < e' ∨ e = e' ∧ m < m') := by
  unfold on
  simp only [Prod.Lex.toLex_lt_toLex]

variable {i k : ℤ}

theorem nearestTo_of_pos (h : 0 < i) : nearestTo i = on 1 (nearest i.natAbs).2 (nearest i.natAbs).1 := by
  rw [nearestTo, Int.sign_eq_one_of_pos h, Int.one_mul, Int.one_mul]

theorem nearestTo_of_neg (h : i < 0) : nearestTo i = on (-1) (-(nearest i.natAbs).2) (-(nearest i.natAbs).1) := by
  rw [nearestTo, Int.sign_eq_neg_one_of_neg h, Int.neg_one_mul, Int.neg_one_mul]

theorem nearestTo_lt_of_sides (h : i < k) (hi : i ≤ 0) (hk : 0 ≤ k) : nearestTo i < nearestTo k := by
  refine on_lt_on.2 (.inl ?_)
  rcases hi.lt_or_eq with hi | rfl
  · have := Int.sign_nonneg_iff.2 hk
    rw [Int.sign_eq_neg_one_of_neg hi]
    omega
  · rw [Int.sign_zero, Int.sign_eq_one_of_pos h]
    decide

theorem nearestTo_le (h : i ≤ k) : nearestTo i ≤ nearestTo k := by
  rcases h.lt_or_eq with h | rfl
  · by_cases hi : 0 < i
    · have hle := @nearest_le i.natAbs k.natAbs (by omega) (by omega)
      rw [nearestTo_of_pos hi, nearestTo_of_pos (hi.trans h), on_le_on]
      omega
    · by_cases hk : k < 0
      · have hle := @nearest_le k.natAbs i.natAbs (by omega) (by omega)
        rw [nearestTo_of_neg (h.trans hk), nearestTo_of_neg hk, on_le_on]
        omega
      · exact (nearestTo_lt_of_sides h (by omega) (by omega)).le
  · exact le_rfl

/-- An integer with at most 53 digits shares its nearest number with no other one. -/
theorem nearestTo_lt (h : i < k) (hsmall : i.natAbs < 2 ^ 53 ∨ k.natAbs < 2 ^ 53) : nearestTo i < nearestTo k := by
  by_cases hi : 0 < i
  · have hlt := @nearest_lt i.natAbs k.natAbs (by omega) (by omega) (by omega)
    rw [nearestTo_of_pos hi, nearestTo_of_pos (hi.trans h), on_lt_on]
    omega
  · by_cases hk : k < 0
    · have hlt := @nearest_lt k.natAbs i.natAbs (by omega) (by omega) (by omega)
      rw [nearestTo_of_neg (h.trans hk), nearestTo_of_neg hk, on_lt_on]
      omega
    · exact nearestTo_lt_of_sides h (by omega) (by omega)

end Place

end Provisioning
