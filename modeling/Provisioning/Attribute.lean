import Provisioning.Naming
import Provisioning.Value

/-! Attributes: a name with a list of values. A missing list differs from an empty one where an
attribute is stored, compared or written, and reads as empty where its values are used. -/

namespace Provisioning

structure Attribute where
  name : String
  /-- `none` where the attribute has no value list at all. -/
  values? : Option (List Value)
deriving DecidableEq, Inhabited

/-- What identifies an object in its system. -/
structure Uid where
  value : String
deriving DecidableEq, Inhabited

/-- What users know an object by. -/
structure Name where
  value : String
deriving DecidableEq, Inhabited

namespace Attribute

def of (name : String) (values : List Value) : Attribute := ⟨name, some values⟩

def single (name : String) (value : Value) : Attribute := ⟨name, some [value]⟩

def values (a : Attribute) : List Value := a.values?.getD []

def isNull (a : Attribute) : Bool := a.values?.isNone

def singleValue? (a : Attribute) : Option Value :=
  match a.values with
  | [v] => some v
  | _ => none

def singleString? (a : Attribute) : Option String := a.singleValue?.bind Value.string?

def isNamed (a : Attribute) (name : String) : Bool := sameName a.name name

def isUid (a : Attribute) : Bool := a.isNamed uidName

def isName (a : Attribute) : Bool := a.isNamed nameName

def isSpecial (a : Attribute) : Bool := isSpecialName a.name

/-- The key under which an attribute is stored. -/
def key (a : Attribute) : String := foldCase a.name

theorem isNamed_iff (a : Attribute) (name : String) : a.isNamed name = true ↔ a.key = foldCase name :=
  sameName_iff a.name name

def withValues (a : Attribute) (values : List Value) : Attribute := ⟨a.name, some values⟩

/-- Attributes agree when their names are the same and their lists agree value by value; a missing
list agrees with a missing list only. -/
def agrees (a b : Attribute) : Bool := a.isNamed b.name && a.values? == b.values?

instance : BEq Attribute := ⟨agrees⟩

/-- How an attribute reads in a message. -/
def text (a : Attribute) : String :=
  match a.values? with
  | none => a.name ++ "=null"
  | some values => a.name ++ "=[" ++ String.intercalate ", " (values.map Value.text) ++ "]"

/-- The Uid that an attribute holds: its one string value. -/
def uid? (a : Attribute) : Option Uid := a.singleString?.map Uid.mk

end Attribute

def Uid.toAttribute (uid : Uid) : Attribute := .single uidName (.string uid.value)

def Name.toAttribute (name : Name) : Attribute := .single nameName (.string name.value)

@[simp] theorem Uid.uid?_toAttribute (uid : Uid) : uid.toAttribute.uid? = some uid := rfl

end Provisioning
