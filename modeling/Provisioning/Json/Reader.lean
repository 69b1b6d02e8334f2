import Provisioning.Json.Number

/-! Reading JSON text, strictly: one value with white space around it and nothing else. What is spelled
correctly but cannot be used becomes an unreadable part. -/

namespace Provisioning.Json

def isBlank (c : Char) : Bool := c = ' ' || c = '\n' || c = '\t' || c = '\r'

def skipBlanks (cs : List Char) : List Char := cs.dropWhile isBlank

/-- What follows a word. -/
def after? (word : String) (cs : List Char) : Option (List Char) :=
  if word.toList.isPrefixOf cs then some (cs.drop word.toList.length) else none

def hexDigit? (c : Char) : Option Nat :=
  if c.isDigit then some (c.toNat - '0'.toNat)
  else if 'a' ≤ c ∧ c ≤ 'f' then some (c.toNat - 'a'.toNat + 10)
  else if 'A' ≤ c ∧ c ≤ 'F' then some (c.toNat - 'A'.toNat + 10)
  else none

/-- The character that a single letter after a backslash stands for. -/
def escaped? : Char → Option Nat
  | '"' => some 0x22
  | '\\' => some 0x5c
  | '/' => some 0x2f
  | 'b' => some 0x08
  | 'f' => some 0x0c
  | 'n' => some 0x0a
  | 'r' => some 0x0d
  | 't' => some 0x09
  | _ => none

/-- The units of a text after its opening quote, up to the closing one: code points, or halves of a
surrogate pair where an escape names one. -/
def readUnits : List Char → Option (List Nat × List Char)
  | '"' :: rest => some ([], rest)
  | '\\' :: 'u' :: a :: b :: c :: d :: rest => do
    let unit := (((← hexDigit? a) * 16 + (← hexDigit? b)) * 16 + (← hexDigit? c)) * 16 + (← hexDigit? d)
    let (units, rest) ← readUnits rest
    return (unit :: units, rest)
  | '\\' :: c :: rest => do
    let unit ← escaped? c
    let (units, rest) ← readUnits rest
    return (unit :: units, rest)
  | c :: rest =>
    if c.toNat < 0x20 then none
    else do
      let (units, rest) ← readUnits rest
      return (c.toNat :: units, rest)
  | [] => none

/-- Joins surrogate pairs; a half without its other half makes no text. -/
def joinPairs? : List Nat → Option (List Char)
  | [] => some []
  | [u] => if 0xD800 ≤ u ∧ u < 0xE000 then none else some [Char.ofNat u]
  | u :: v :: rest =>
    if 0xD800 ≤ u ∧ u < 0xDC00 then
      if 0xDC00 ≤ v ∧ v < 0xE000 then do
        return Char.ofNat (0x10000 + (u - 0xD800) * 0x400 + (v - 0xDC00)) :: (← joinPairs? rest)
      else none
    else if 0xDC00 ≤ u ∧ u < 0xE000 then none
    else do return Char.ofNat u :: (← joinPairs? (v :: rest))

/-- A text after its opening quote; `none` inside where it cannot be used. -/
def readText (cs : List Char) : Option (Option String × List Char) := do
  let (units, rest) ← readUnits cs
  return ((joinPairs? units).map String.ofList, rest)

def digitsOf (cs : List Char) : List Nat := cs.map fun c => c.toNat - '0'.toNat

/-- One or more digits. -/
def readDigits (cs : List Char) : Option (List Nat × List Char) :=
  match cs.takeWhile Char.isDigit with
  | [] => none
  | ds => some (digitsOf ds, cs.dropWhile Char.isDigit)

/-- The digits before the point: no zero in front of another digit. -/
def readWhole : List Char → Option (List Nat × List Char)
  | '0' :: rest => some ([0], rest)
  | cs => readDigits cs

/-- A fraction, if a point follows. -/
def readFraction : List Char → Option (Option (List Nat) × List Char)
  | '.' :: rest => do
    let (ds, rest) ← readDigits rest
    return (some ds, rest)
  | cs => some (none, cs)

/-- An exponent, if its mark follows. -/
def readExponent : List Char → Option (Option Int × List Char)
  | c :: rest =>
    if c = 'e' || c = 'E' then do
      let (negative, rest) := match rest with
        | '-' :: rest => (true, rest)
        | '+' :: rest => (false, rest)
        | rest => (false, rest)
      let (ds, rest) ← readDigits rest
      let n : Nat := ds.foldl (fun n d => n * 10 + d) 0
      return (some (if negative then -(n : Int) else n), rest)
    else some (none, c :: rest)
  | [] => some (none, [])

def readNumber (cs : List Char) : Option (Json × List Char) := do
  let (negative, rest) := match cs with
    | '-' :: rest => (true, rest)
    | cs => (false, cs)
  let (whole, rest) ← readWhole rest
  let (fraction?, rest) ← readFraction rest
  let (exponent?, rest) ← readExponent rest
  let t : NumberText :=
    { negative, whole
      fraction := fraction?.getD []
      pointed := fraction?.isSome || exponent?.isSome
      exponent := exponent?.getD 0 }
  return (t.value, rest)

/-- Arrays and objects nested more deeply than this cannot be used. -/
def maxDepth : Nat := 127

/-- The object with these members, unless a name cannot be used. -/
def ofMembers (members : List (Option String × Json)) : Json :=
  match members.mapM fun m => m.1.map fun name => (name, m.2) with
  | some members => .object members
  | none => .unreadable

mutual
/-- A value, inside `depth` arrays and objects. -/
def readValue (depth : Nat) : Nat → List Char → Option (Json × List Char)
  | 0, _ => none
  | fuel + 1, cs =>
    match skipBlanks cs with
    | 'n' :: rest => (after? "ull" rest).map (Json.null, ·)
    | 't' :: rest => (after? "rue" rest).map (Json.bool true, ·)
    | 'f' :: rest => (after? "alse" rest).map (Json.bool false, ·)
    | '"' :: rest => do
      let (text?, rest) ← readText rest
      return ((text?.map Json.string).getD .unreadable, rest)
    | '[' :: rest => do
      let (items, rest) ←
        match skipBlanks rest with
        | ']' :: rest => some ([], rest)
        | rest => readItems (depth + 1) fuel rest
      return (if depth < maxDepth then .array items else .unreadable, rest)
    | '{' :: rest => do
      let (members, rest) ←
        match skipBlanks rest with
        | '}' :: rest => some ([], rest)
        | rest => readMembers (depth + 1) fuel rest
      return (if depth < maxDepth then ofMembers members else .unreadable, rest)
    | rest => readNumber rest

/-- The items of an array, up to its end. -/
def readItems (depth : Nat) : Nat → List Char → Option (List Json × List Char)
  | 0, _ => none
  | fuel + 1, cs => do
    let (j, rest) ← readValue depth fuel cs
    match skipBlanks rest with
    | ']' :: rest => return ([j], rest)
    | ',' :: rest => do
      let (items, rest) ← readItems depth fuel rest
      return (j :: items, rest)
    | _ => none

/-- The members of an object, up to its end. -/
def readMembers (depth : Nat) : Nat → List Char → Option (List (Option String × Json) × List Char)
  | 0, _ => none
  | fuel + 1, cs =>
    match skipBlanks cs with
    | '"' :: rest => do
      let (name?, rest) ← readText rest
      match skipBlanks rest with
      | ':' :: rest => do
        let (j, rest) ← readValue depth fuel rest
        match skipBlanks rest with
        | '}' :: rest => return ([(name?, j)], rest)
        | ',' :: rest => do
          let (members, rest) ← readMembers depth fuel rest
          return ((name?, j) :: members, rest)
        | _ => none
      | _ => none
    | _ => none
end

/-- Reads a text that holds one value. Each step of the reader takes at least one character every
other time, so twice the length is enough for any text. -/
def read? (s : String) : Option Json :=
  let cs := s.toList
  match readValue 0 (2 * cs.length + 2) cs with
  | some (j, rest) => if (skipBlanks rest).isEmpty then some j else none
  | none => none

end Provisioning.Json
