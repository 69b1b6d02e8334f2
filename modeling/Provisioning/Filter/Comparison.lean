import Provisioning.Object

/-! What a leaf of a filter asks of the one attribute it names. -/

namespace Provisioning

/-- The ways in which an attribute of an object is compared with a wanted one. -/
inductive Comparison where
  | equals
  | contains
  | startsWith
  | endsWith
  | greaterThan
  | greaterThanOrEqual
  | lessThan
  | lessThanOrEqual
  | containsAllValues
deriving DecidableEq, Inhabited

namespace Comparison

def all : List Comparison :=
  [equals, contains, startsWith, endsWith, greaterThan, greaterThanOrEqual, lessThan, lessThanOrEqual,
    containsAllValues]

def text : Comparison → String
  | equals => "equals"
  | contains => "contains"
  | startsWith => "starts_with"
  | endsWith => "ends_with"
  | greaterThan => "greater_than"
  | greaterThanOrEqual => "greater_than_or_equal"
  | lessThan => "less_than"
  | lessThanOrEqual => "less_than_or_equal"
  | containsAllValues => "contains_all_values"

def ofText? (s : String) : Option Comparison := all.find? fun c => c.text = s

/-- Whether a text occurs somewhere in another. -/
def occursIn (part : List Char) : List Char → Bool
  | [] => part.isEmpty
  | c :: rest => part.isPrefixOf (c :: rest) || occursIn part rest

/-- Some string value of the actual attribute stands in a relation to the wanted one, which must be a
single string. -/
def someString (wanted actual : Attribute) (related : List Char → List Char → Bool) : Bool :=
  match wanted.singleString? with
  | none => false
  | some part => (actual.values.filterMap Value.string?).any fun s => related part.toList s.toList

/-- The order of the actual value relative to the wanted one, where both attributes hold a single
value. -/
def order? (wanted actual : Attribute) : Option Ordering := do
  let w ← wanted.singleValue?
  let a ← actual.singleValue?
  a.compare? w

/-- Whether the actual attribute is what the wanted one asks for. -/
def holds (c : Comparison) (wanted actual : Attribute) : Bool :=
  match c with
  | equals => wanted.values == actual.values
  | contains => someString wanted actual occursIn
  | startsWith => someString wanted actual List.isPrefixOf
  | endsWith => someString wanted actual List.isSuffixOf
  | greaterThan => (order? wanted actual).any (· == .gt)
  | greaterThanOrEqual => (order? wanted actual).any (· != .lt)
  | lessThan => (order? wanted actual).any (· == .lt)
  | lessThanOrEqual => (order? wanted actual).any (· != .gt)
  | containsAllValues => wanted.values.all fun v => actual.values.any (· == v)

end Comparison

end Provisioning
