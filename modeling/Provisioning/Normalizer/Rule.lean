import Provisioning.Normalizer

/-! Normalizers given by rules: each rule picks attributes by name and class and changes their name or
their values; rules apply in order, each to what the one before left. -/

namespace Provisioning

/-- What a rule does to an attribute. -/
inductive RuleAction where
  /-- Every string value in lower case. -/
  | lowerCase
  /-- Every string value with a text before it. -/
  | prepend (text : String)
  /-- An empty value list. -/
  | clear
  /-- No value list at all. -/
  | unset
  | rename (name : String)
deriving DecidableEq

/-- A rule for the attributes of some name, or of all names, in objects of some class, or of all classes. -/
structure NormalizationRule where
  attributeName? : Option String
  className? : Option String
  action : RuleAction
deriving DecidableEq

/-- Changes the string values of an attribute; a missing list stays missing. -/
def Attribute.mapStrings (f : String → String) (a : Attribute) : Attribute :=
  ⟨a.name, a.values?.map fun vs => vs.map fun
    | .string s => .string (f s)
    | v => v⟩

def RuleAction.apply (action : RuleAction) (a : Attribute) : Attribute :=
  match action with
  | lowerCase => a.mapStrings foldCase
  | prepend text => a.mapStrings (text ++ ·)
  | clear => ⟨a.name, some []⟩
  | unset => ⟨a.name, none⟩
  | rename name => ⟨name, a.values?⟩

namespace NormalizationRule

def concerns (r : NormalizationRule) (c : ObjectClass) (a : Attribute) : Bool :=
  r.attributeName?.all a.isNamed && r.className?.all c.isNamed

def apply (r : NormalizationRule) (c : ObjectClass) (a : Attribute) : Attribute :=
  if r.concerns c a then r.action.apply a else a

end NormalizationRule

/-- The normalizer that applies rules one after the other. -/
def Normalizer.ofRules (rules : List NormalizationRule) : Normalizer := fun c a =>
  rules.foldl (fun a r => r.apply c a) a

end Provisioning
