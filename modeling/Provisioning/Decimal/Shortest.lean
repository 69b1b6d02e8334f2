/-! The fewest decimal digits that read back as a given binary64 number. The reals that round to the
number form a span; the digits are those of a point of the coarsest power-of-ten grid that has one in
the span, and of two such points the one nearer to the number. -/

namespace Provisioning.Decimal

/-- The reals that round to a number: from `lo / unit` to `hi / unit` around `mid / unit`, the ends
included when `closed`. -/
structure Span where
  lo : Nat
  mid : Nat
  hi : Nat
  unit : Nat
  closed : Bool

/-- The span of a finite number, its sign left aside. Half a unit in the last place lies on either
side, a quarter below a power of two; the ends round to an even significand. -/
def Span.ofBits (bits : UInt64) : Span :=
  let biased := bits.toNat / 0x10000000000000 % 0x800
  let fraction := bits.toNat % 0x10000000000000
  let significand := if biased = 0 then fraction else 0x10000000000000 + fraction
  let below := if fraction = 0 ∧ biased > 1 then 1 else 2
  -- the weight of the last place is 2 ^ (up - down)
  let up := biased - 1075
  let down := 1075 - max biased 1
  { lo := (4 * significand - below) * Nat.pow 2 up
    mid := 4 * significand * Nat.pow 2 up
    hi := (4 * significand + 2) * Nat.pow 2 up
    unit := 4 * Nat.pow 2 down
    closed := significand % 2 = 0 }

/-- A positive decimal number, `digits * 10 ^ exponent`. -/
structure Digits where
  digits : Nat
  exponent : Int
deriving DecidableEq, Repr

/-- Which of two equally near neighbours stands for a number. -/
inductive Tie where
  | toEven
  | up
deriving DecidableEq

/-- The multiples of `10 ^ exponent` next to the middle of the span that lie in it; the nearer one if
both do. -/
def Span.nearest? (s : Span) (tie : Tie) (exponent : Int) : Option Digits :=
  let step := s.unit * Nat.pow 10 exponent.toNat
  let scale := Nat.pow 10 (-exponent).toNat
  let d := s.mid * scale / step
  let inside (n : Nat) : Bool :=
    if s.closed then s.lo * scale ≤ n * step && n * step ≤ s.hi * scale
    else s.lo * scale < n * step && n * step < s.hi * scale
  let takeUpper : Bool :=
    match compare (2 * s.mid * scale) ((2 * d + 1) * step) with
    | .lt => false
    | .gt => true
    | .eq => tie == .up || d % 2 == 1
  match inside d, inside (d + 1) with
  | true, true => some ⟨cond takeUpper (d + 1) d, exponent⟩
  | true, false => some ⟨d, exponent⟩
  | false, true => some ⟨d + 1, exponent⟩
  | false, false => none

/-- The grids that can matter, the coarsest first: no finite number reaches `10 ^ 309`, and the least
gap between two numbers spans several multiples of `10 ^ -324`. -/
def grids : List Int := (List.range 634).map fun (i : Nat) => 309 - (i : Int)

/-- The shortest digits of a finite number other than zero, its sign left aside. -/
def shortest (bits : UInt64) (tie : Tie) : Digits :=
  let s := Span.ofBits bits
  (grids.findSome? (s.nearest? tie)).getD ⟨s.mid / s.unit, 0⟩

end Provisioning.Decimal
