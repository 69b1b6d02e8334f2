import Provisioning.Object

/-! What a connected system holds: its object classes, their attributes, and which operations are
restricted to which classes. -/

namespace Provisioning

/-- The kind of an attribute's values. -/
inductive DataType where
  | string
  | integer
  | boolean
  | float
  | binary
  | secret
deriving DecidableEq, Inhabited

namespace DataType

def all : List DataType := [string, integer, boolean, float, binary, secret]

def text : DataType → String
  | string => "string"
  | integer => "integer"
  | boolean => "boolean"
  | float => "float"
  | binary => "binary"
  | secret => "secret"

def ofText? (s : String) : Option DataType := all.find? fun d => d.text = s

end DataType

/-- What is known of an attribute of a class. -/
structure AttributeInfo where
  name : String
  dataType : DataType
  required : Bool := false
  multiValued : Bool := false
  creatable : Bool := true
  updateable : Bool := true
  readable : Bool := true
  returnedByDefault : Bool := true
deriving DecidableEq, Inhabited

namespace AttributeInfo

def asMultiValued (a : AttributeInfo) : AttributeInfo := { a with multiValued := true }

def asRequired (a : AttributeInfo) : AttributeInfo := { a with required := true }

def asReadOnly (a : AttributeInfo) : AttributeInfo := { a with creatable := false, updateable := false }

def asWriteOnly (a : AttributeInfo) : AttributeInfo :=
  { a with readable := false, returnedByDefault := false }

def notReturnedByDefault (a : AttributeInfo) : AttributeInfo := { a with returnedByDefault := false }

end AttributeInfo

/-- What is known of a class of objects. -/
structure ObjectClassInfo where
  typeName : String
  container : Bool := false
  attributes : List AttributeInfo
deriving DecidableEq, Inhabited

namespace ObjectClassInfo

/-- Every object has a Uid that the system assigns and a name. -/
def of (typeName : String) : ObjectClassInfo where
  typeName
  attributes :=
    [({ name := uidName, dataType := .string } : AttributeInfo).asReadOnly.asRequired,
      ({ name := nameName, dataType := .string } : AttributeInfo).asRequired]

def asContainer (c : ObjectClassInfo) : ObjectClassInfo := { c with container := true }

/-- Adds an attribute at the end; one of the same name, case aside, gives way. -/
def withAttribute (c : ObjectClassInfo) (a : AttributeInfo) : ObjectClassInfo :=
  { c with attributes := c.attributes.filter (fun b => !sameName b.name a.name) ++ [a] }

def attribute? (c : ObjectClassInfo) (name : String) : Option AttributeInfo :=
  c.attributes.find? fun a => sameName a.name name

def requiredAttributes (c : ObjectClassInfo) : List AttributeInfo := c.attributes.filter (·.required)

end ObjectClassInfo

/-- The classes of a system. An operation with a restriction is for the classes listed with it; the
restrictions are kept in the order of their operations, one for each. -/
structure Schema where
  objectClasses : List ObjectClassInfo := []
  restrictions : List (Operation × List String) := []
deriving DecidableEq, Inhabited

namespace Schema

def withObjectClass (s : Schema) (c : ObjectClassInfo) : Schema :=
  { s with objectClasses := s.objectClasses ++ [c] }

/-- Puts a restriction in the place of its operation; an earlier one of the same operation gives way. -/
def insertRestriction (o : Operation) (names : List String) :
    List (Operation × List String) → List (Operation × List String)
  | [] => [(o, names)]
  | (p, ns) :: rest =>
    if o.index < p.index then (o, names) :: (p, ns) :: rest
    else if o = p then (o, names) :: rest
    else (p, ns) :: insertRestriction o names rest

def restrict (s : Schema) (o : Operation) (names : List String) : Schema :=
  { s with restrictions := insertRestriction o names s.restrictions }

def objectClass? (s : Schema) (c : ObjectClass) : Option ObjectClassInfo :=
  s.objectClasses.find? fun info => c.isNamed info.typeName

/-- Whether an operation is for objects of a class: as its restriction says, or for every known class. -/
def supports (s : Schema) (o : Operation) (c : ObjectClass) : Bool :=
  match s.restrictions.find? fun r => r.1 = o with
  | some (_, names) => names.any c.isNamed
  | none => (s.objectClass? c).isSome

end Schema

end Provisioning
