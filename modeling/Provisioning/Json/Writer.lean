import Provisioning.Decimal.Layout
import Provisioning.Json

/-! Writing JSON text without blanks, members in the order in which they stand. -/

namespace Provisioning.Json

/-- Numbers with a point always show it or an exponent; the exponent has its sign and stands from
`10 ^ 16` on and below `10 ^ -5`. A tie goes to the even neighbour, and what is not finite is null. -/
def numberFormat : Decimal.Format where
  positional := fun e => -5 ≤ e && e < 16
  pointZero := true
  tie := .toEven
  nan := "null"
  infinity := "null"
  negInfinity := "null"

def hexChar (n : Nat) : Char := (Nat.toDigits 16 n).headD '0'

/-- A character inside a text. -/
def escape (c : Char) : List Char :=
  match c with
  | '"' => ['\\', '"']
  | '\\' => ['\\', '\\']
  | '\n' => ['\\', 'n']
  | '\r' => ['\\', 'r']
  | '\t' => ['\\', 't']
  | c =>
    if c.toNat = 0x08 then ['\\', 'b']
    else if c.toNat = 0x0c then ['\\', 'f']
    else if c.toNat < 0x20 then ['\\', 'u', '0', '0', hexChar (c.toNat / 16), hexChar (c.toNat % 16)]
    else [c]

def quote (s : String) : String := "\"" ++ String.ofList (s.toList.flatMap escape) ++ "\""

mutual
def write : Json → String
  | null => "null"
  | bool b => if b then "true" else "false"
  | integer n => toString n
  | float x => numberFormat.write x
  | string s => quote s
  | array items => "[" ++ String.intercalate "," (writeItems items) ++ "]"
  | object members => "\x7b" ++ String.intercalate "," (writeMembers members) ++ "\x7d"
  | unreadable => "null"

def writeItems : List Json → List String
  | [] => []
  | j :: rest => write j :: writeItems rest

def writeMembers : List (String × Json) → List String
  | [] => []
  | (name, j) :: rest => (quote name ++ ":" ++ write j) :: writeMembers rest
end

end Provisioning.Json
