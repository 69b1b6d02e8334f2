import Provisioning.Decimal.Layout

/-! Attribute values: what they hold, when two of them are equal, how they compare and how they read
as text. -/

namespace Provisioning

/-- A single value of an attribute. -/
inductive Value where
  | null
  | string (text : String)
  | integer (number : Int64)
  | boolean (truth : Bool)
  | float (number : Float)
  | binary (bytes : List UInt8)
deriving DecidableEq, Inhabited

namespace Value

def isNull : Value → Bool
  | null => true
  | _ => false

/-- Whether a value is a number with a point. -/
def isFloat : Value → Bool
  | float _ => true
  | _ => false

def string? : Value → Option String
  | string s => some s
  | _ => none

def integer? : Value → Option Int64
  | integer i => some i
  | _ => none

def boolean? : Value → Option Bool
  | boolean b => some b
  | _ => none

/-- Values agree when they are of one kind and hold the same; numbers with a point agree as numbers,
so a value that is not a number agrees with nothing, itself included. -/
def agrees : Value → Value → Bool
  | null, null => true
  | string a, string b => decide (a = b)
  | integer a, integer b => decide (a = b)
  | boolean a, boolean b => decide (a = b)
  | float a, float b => Float.beq a b
  | binary a, binary b => decide (a = b)
  | _, _ => false

instance : BEq Value := ⟨agrees⟩

/-- The order of two numbers with a point; there is none where one of them is not a number. -/
def compareFloats (x y : Float) : Option Ordering :=
  if x < y then some .lt
  else if x == y then some .eq
  else if y < x then some .gt
  else none

/-- The number with a point nearest to an integer. -/
def nearestFloat (i : Int64) : Float := Float.ofInt i.toInt

/-- The order of two values: texts by code points, bytes from the first on, false before true, and
numbers by size, an integer beside a number with a point as the nearest such number. Values of other
pairs of kinds have no order. -/
def compare? : Value → Value → Option Ordering
  | string a, string b => some (compare a b)
  | integer a, integer b => some (compare a b)
  | float a, float b => compareFloats a b
  | integer a, float b => compareFloats (nearestFloat a) b
  | float a, integer b => compareFloats a (nearestFloat b)
  | boolean a, boolean b => some (compare a b)
  | binary a, binary b => some (compare a b)
  | _, _ => none

/-- In running text numbers never show an exponent, an integral number shows no point, and a tie goes
to the upper neighbour. -/
def textFormat : Decimal.Format where
  positional := fun _ => true
  pointZero := false
  tie := .up
  nan := "NaN"
  infinity := "inf"
  negInfinity := "-inf"

/-- How a value reads in a message. -/
def text : Value → String
  | null => "null"
  | string s => s
  | integer i => toString i.toInt
  | boolean b => if b then "true" else "false"
  | float x => textFormat.write x
  | binary bytes => "<" ++ toString bytes.length ++ " bytes>"

end Value

end Provisioning
