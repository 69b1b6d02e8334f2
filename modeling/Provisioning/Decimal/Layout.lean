import Provisioning.Decimal.Shortest

/-! How shortest digits are laid out as text. A format decides which numbers are written without an
exponent, whether an integral number shows `.0`, where ties go, and what stands for a number that is
not finite. -/

namespace Provisioning.Decimal

structure Format where
  /-- Whether a number whose leading digit has this power of ten is written positionally. -/
  positional : Int → Bool
  /-- An integral number in positional form ends in `.0`. -/
  pointZero : Bool
  tie : Tie
  nan : String
  infinity : String
  negInfinity : String

def zeros (n : Nat) : String := String.ofList (List.replicate n '0')

/-- The digits with the point put in place by zeros where needed. -/
def Digits.plain (d : Digits) (pointZero : Bool) : String :=
  let text := Nat.toDigits 10 d.digits
  if 0 ≤ d.exponent then
    String.ofList text ++ zeros d.exponent.toNat ++ (if pointZero then ".0" else "")
  else
    let places := (-d.exponent).toNat
    if places < text.length then
      String.ofList (text.take (text.length - places)) ++ "." ++
        String.ofList (text.drop (text.length - places))
    else "0." ++ zeros (places - text.length) ++ String.ofList text

/-- The power of ten of the leading digit. -/
def Digits.magnitude (d : Digits) : Int := d.exponent + ((Nat.toDigits 10 d.digits).length : Int) - 1

/-- One digit before the point, and the exponent with its sign. -/
def Digits.scientific (d : Digits) : String :=
  let text := Nat.toDigits 10 d.digits
  let mantissa := String.ofList (text.take 1) ++
    (if text.length > 1 then "." ++ String.ofList (text.drop 1) else "")
  let e := d.magnitude
  mantissa ++ (if e < 0 then "e-" else "e+") ++ String.ofList (Nat.toDigits 10 e.natAbs)

/-- The text of a number. -/
def Format.write (f : Format) (x : Float) : String :=
  if x.isNaN then f.nan
  else
    let negative := x.toBits ≥ 0x8000000000000000
    if x.isInf then if negative then f.negInfinity else f.infinity
    else
      let body :=
        if x == 0 then if f.pointZero then "0.0" else "0"
        else
          let d := shortest x.toBits f.tie
          if f.positional d.magnitude then d.plain f.pointZero else d.scientific
      if negative then "-" ++ body else body

end Provisioning.Decimal
