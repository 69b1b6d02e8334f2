import Provisioning.Json

/-! The value of a number in JSON text. An integer that 64 bits hold is exact. Any other number is read
in double arithmetic: as many leading digits as 64 bits hold, scaled once by a power of ten. -/

namespace Provisioning.Json

/-- A number as it is written. -/
structure NumberText where
  negative : Bool
  whole : List Nat
  fraction : List Nat := []
  /-- Whether a fraction or an exponent is written. -/
  pointed : Bool := false
  exponent : Int := 0

/-- Appends digits as long as the result fits in 64 bits; also gives the digits left over. -/
def takeDigits (n : Nat) : List Nat → Nat × List Nat
  | [] => (n, [])
  | d :: rest => if n * 10 + d < 0x10000000000000000 then takeDigits (n * 10 + d) rest else (n, d :: rest)

/-- Ten to a power of at most 308, as the nearest number with a point. -/
def powerOfTen (k : Nat) : Float := Float.ofScientific 1 false k

/-- Divides by ten to the power `k`, 308 places at a time; four times that leaves nothing of 64 bits. -/
def scaleDown : Nat → Float → Nat → Float
  | 0, x, _ => x
  | steps + 1, x, k =>
    if k ≤ 308 then x / powerOfTen k else scaleDown steps (x / powerOfTen 308) (k - 308)

/-- Digits times ten to a power, unless that is beyond the range of numbers. -/
def scale? (digits : Nat) (exponent : Int) : Option Float :=
  let x := Float.ofNat digits
  if exponent < 0 then some (scaleDown 5 x exponent.natAbs)
  else if digits = 0 then some x
  else if exponent > 308 then none
  else
    let y := x * powerOfTen exponent.toNat
    if y.isInf then none else some y

/-- The value that a number has. -/
def NumberText.value (t : NumberText) : Json :=
  let (digits, dropped) := takeDigits 0 t.whole
  if !t.pointed && dropped.isEmpty && (!t.negative || (0 < digits && digits ≤ 0x8000000000000000)) then
    .integer (if t.negative then -(digits : Int) else digits)
  else
    let (all, ignored) := takeDigits digits t.fraction
    let shift : Int := dropped.length - ((t.fraction.length - ignored.length : Nat) : Int)
    match scale? all (shift + t.exponent) with
    | none => .unreadable
    | some x => .float (if t.negative then -x else x)

end Provisioning.Json
