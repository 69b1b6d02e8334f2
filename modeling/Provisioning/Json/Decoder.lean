import Provisioning.Json

/-! Reading typed data off JSON values. A record may be written as an object, with members it does not
know ignored and none of its own repeated, or as an array of its fields in order. -/

namespace Provisioning.Json

/-- Reads a value of some type; `none` where the JSON value is none of that type. -/
abbrev Decoder (α : Type) := Json → Option α

namespace Decoder

def text : Decoder String
  | .string s => some s
  | _ => none

def truth : Decoder Bool
  | .bool b => some b
  | _ => none

/-- An integer from `lo` to below `hi`. -/
def integerIn (lo hi : Int) : Decoder Int
  | .integer n => if lo ≤ n ∧ n < hi then some n else none
  | _ => none

def int64 : Decoder Int64 := fun j => (integerIn (-0x8000000000000000) 0x8000000000000000 j).map Int64.ofInt

def uint64 : Decoder UInt64 := fun j => (integerIn 0 0x10000000000000000 j).map fun n => n.toNat.toUInt64

def uint32 : Decoder UInt32 := fun j => (integerIn 0 0x100000000 j).map fun n => n.toNat.toUInt32

def uint8 : Decoder UInt8 := fun j => (integerIn 0 256 j).map fun n => n.toNat.toUInt8

def list {α : Type} (d : Decoder α) : Decoder (List α)
  | .array items => items.mapM d
  | _ => none

/-- A value or null. -/
def nullable {α : Type} (d : Decoder α) : Decoder (Option α)
  | .null => some none
  | j => (d j).map some

/-- A name out of a fixed list, alone or as the one member of an object that holds null. -/
def choice {α : Type} (ofText? : String → Option α) : Decoder α
  | .string s => ofText? s
  | .object [(s, .null)] => ofText? s
  | _ => none

/-- Any value that can be used, in canonical form. -/
def any : Decoder Json := fun j => if j.isReadable then some j.canonical else none

/-- Members of any name. -/
def members {α : Type} (d : Decoder α) : Decoder (List (String × α))
  | .object ms => ms.mapM fun m => (d m.2).map fun a => (m.1, a)
  | _ => none

end Decoder

/-- The fields of a record: how to find them among members and how to take them off a list. -/
structure Fields (α : Type) where
  names : List String
  ofMembers : List (String × Json) → Option α
  ofItems : List Json → Option (α × List Json)

namespace Fields

def pure {α : Type} (a : α) : Fields α := ⟨[], fun _ => some a, fun items => some (a, items)⟩

/-- A field with what stands for it where it is missing from an object, and from an array. -/
def field {α : Type} (name : String) (d : Decoder α) (missingMember? missingItem? : Option α) : Fields α where
  names := [name]
  ofMembers ms :=
    match ms.lookup name with
    | some j => d j
    | none => missingMember?
  ofItems
    | j :: rest => (d j).map (·, rest)
    | [] => missingItem?.map (·, [])

/-- A field that must be there. -/
def required {α : Type} (name : String) (d : Decoder α) : Fields α := field name d none none

/-- A field that an object may leave out. -/
def optional {α : Type} (name : String) (d : Decoder α) : Fields (Option α) :=
  field name d.nullable (some none) none

/-- A field with a value of its own where it is left out. -/
def defaulted {α : Type} (name : String) (d : Decoder α) (value : α) : Fields α :=
  field name d (some value) (some value)

/-- One field after others. -/
def and {α β : Type} (f : Fields (α → β)) (x : Fields α) : Fields β where
  names := f.names ++ x.names
  ofMembers ms := do return (← f.ofMembers ms) (← x.ofMembers ms)
  ofItems items := do
    let (g, rest) ← f.ofItems items
    let (a, rest) ← x.ofItems rest
    return (g a, rest)

/-- Whether a name occurs more than once among members. -/
def repeats (name : String) (ms : List (String × Json)) : Bool :=
  (ms.filter fun m => m.1 = name).length > 1

def decode {α : Type} (f : Fields α) : Decoder α
  | .object ms => if f.names.any fun name => repeats name ms then none else f.ofMembers ms
  | .array items =>
    match f.ofItems items with
    | some (a, []) => some a
    | _ => none
  | _ => none

end Fields

end Provisioning.Json
