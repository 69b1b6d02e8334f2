import Provisioning.AttributeSet
import Provisioning.Failure

/-! Objects: a class, a Uid and a set of attributes. An object is drafted attribute by attribute and
built once it has a usable Uid and a name. -/

namespace Provisioning

/-- The kind of an object; classes are the same up to the case of ASCII letters. -/
structure ObjectClass where
  name : String
deriving DecidableEq, Inhabited

namespace ObjectClass

def account : ObjectClass := ⟨"__ACCOUNT__"⟩

def group : ObjectClass := ⟨"__GROUP__"⟩

/-- Stands for every class. -/
def all : ObjectClass := ⟨"__ALL__"⟩

def isNamed (c : ObjectClass) (name : String) : Bool := sameName c.name name

instance : BEq ObjectClass := ⟨fun c d => c.isNamed d.name⟩

end ObjectClass

/-- The Uid that an attribute holds, or why it holds none. -/
def Uid.ofAttribute (a : Attribute) : Except Failure Uid :=
  match a.uid? with
  | some uid => .ok uid
  | none => .error (.invalidArgument (.uidShape a))

/-- Collects attributes whose names must all be different. -/
def AttributeSet.ofAttributes (attributes : List Attribute) : Except Failure AttributeSet :=
  match AttributeSet.ofDistinct attributes with
  | .ok s => .ok s
  | .error a => .error (.invalidArgument (.duplicateAttribute a.name))

/-- An object of a connected system. -/
structure ConnectorObject where
  objectClass : ObjectClass
  uid : Uid
  attributes : AttributeSet
deriving DecidableEq, Inhabited

namespace ConnectorObject

instance : BEq ConnectorObject :=
  ⟨fun o p => o.objectClass == p.objectClass && decide (o.uid = p.uid) && o.attributes == p.attributes⟩

def name? (o : ConnectorObject) : Option Name := o.attributes.name?

def get? (o : ConnectorObject) (name : String) : Option Attribute := o.attributes.get? name

/-- Keeps the Uid, the name and the attributes asked for. -/
def retain (o : ConnectorObject) (names : List String) : ConnectorObject :=
  let own := AttributeSet.empty.insert o.uid.toAttribute
  let named := ((o.attributes.get? nameName).toList).foldl AttributeSet.insert own
  { o with attributes := (names.filterMap o.attributes.get?).foldl AttributeSet.insert named }

/-- Changes every attribute; the Uid follows its attribute as long as that still holds one. -/
def mapAttributes (o : ConnectorObject) (f : Attribute → Attribute) : ConnectorObject :=
  let attributes := o.attributes.map f
  { o with uid := attributes.uid?.getD o.uid, attributes }

end ConnectorObject

/-- An object being put together. -/
structure Draft where
  objectClass? : Option ObjectClass := none
  attributes : AttributeSet := .empty

namespace Draft

def empty : Draft := {}

def withClass (d : Draft) (c : ObjectClass) : Draft := { d with objectClass? := some c }

def withAttribute (d : Draft) (a : Attribute) : Draft := { d with attributes := d.attributes.insert a }

def withUid (d : Draft) (uid : String) : Draft := d.withAttribute (Uid.mk uid).toAttribute

def withName (d : Draft) (name : String) : Draft := d.withAttribute (Name.mk name).toAttribute

def withAttributes (d : Draft) (attributes : List Attribute) : Draft := attributes.foldl withAttribute d

/-- An object has a Uid attribute that holds a Uid, and a name attribute; its class is that of accounts
unless given. -/
def build (d : Draft) : Except Failure ConnectorObject :=
  match d.attributes.get? uidName with
  | none => .error (.invalidArgument .objectWithoutUid)
  | some a => do
    let uid ← Uid.ofAttribute a
    if d.attributes.contains nameName then
      return ⟨d.objectClass?.getD .account, uid, d.attributes⟩
    else throw (.invalidArgument .objectWithoutName)

end Draft

/-- A text that is matched and never shown. -/
structure Secret where
  clear : String
deriving DecidableEq, Inhabited

namespace Secret

def accepts (s : Secret) (candidate : String) : Bool := s.clear = candidate

/-- Stands for any secret where one is shown. -/
def masked (_ : Secret) : String := "GuardedString(***)"

def utf8Length (s : Secret) : Nat := s.clear.utf8ByteSize

end Secret

end Provisioning
