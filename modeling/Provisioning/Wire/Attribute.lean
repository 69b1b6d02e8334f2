import Provisioning.Delta
import Provisioning.Json.Coded

/-! JSON forms of values, attributes, objects and tokens. A value is written without a mark of its
kind, so reading takes the first kind that fits: an integer too large for one is a number with a
point, and a list of bytes is binary. -/

namespace Provisioning

open Json

def Value.toJson : Value → Json
  | null => .null
  | string s => .string s
  | integer i => .integer i.toInt
  | boolean b => .bool b
  | float x => .float x
  | binary bytes => .array (bytes.map fun b => .integer b.toNat)

def Value.ofJson? : Decoder Value
  | .null => some null
  | .string s => some (string s)
  | .bool b => some (boolean b)
  | .integer n => some (((Decoder.int64 (.integer n)).map integer).getD (float (Float.ofInt n)))
  | .float x => some (float x)
  | .array items => (Decoder.list Decoder.uint8 (.array items)).map binary
  | _ => none

instance : Coded Value := ⟨Value.toJson, Value.ofJson?⟩

def Attribute.toJson (a : Attribute) : Json :=
  .object [("name", .string a.name),
    ("values", match a.values? with | none => .null | some vs => .array (vs.map Value.toJson))]

def Attribute.fields : Fields Attribute :=
  ((Fields.pure Attribute.mk).and (.required "name" .text)).and
    (.field "values" (Decoder.nullable (.list Value.ofJson?)) (some none) (some none))

def Attribute.ofJson? : Decoder Attribute := Attribute.fields.decode

instance : Coded Attribute := ⟨Attribute.toJson, Attribute.ofJson?⟩

def AttributeSet.toJson (s : AttributeSet) : Json := .array (s.entries.map Attribute.toJson)

/-- Attributes make a set only if no two have one name. -/
def AttributeSet.ofJson? : Decoder AttributeSet := fun j => do
  (AttributeSet.ofAttributes (← Decoder.list Attribute.ofJson? j)).toOption

instance : Coded AttributeSet := ⟨AttributeSet.toJson, AttributeSet.ofJson?⟩

def Uid.toJson (uid : Uid) : Json := .string uid.value

def Uid.ofJson? : Decoder Uid := fun j => (Decoder.text j).map Uid.mk

instance : Coded Uid := ⟨Uid.toJson, Uid.ofJson?⟩

def Name.toJson (name : Name) : Json := .string name.value

def Name.ofJson? : Decoder Name := fun j => (Decoder.text j).map Name.mk

instance : Coded Name := ⟨Name.toJson, Name.ofJson?⟩

def ObjectClass.toJson (c : ObjectClass) : Json := .string c.name

def ObjectClass.ofJson? : Decoder ObjectClass := fun j => (Decoder.text j).map ObjectClass.mk

instance : Coded ObjectClass := ⟨ObjectClass.toJson, ObjectClass.ofJson?⟩

/-- An object is written with its class and attributes; its Uid stands among them. -/
def ConnectorObject.toJson (o : ConnectorObject) : Json :=
  .object [("object_class", o.objectClass.toJson), ("attributes", o.attributes.toJson)]

def SyncToken.toJson : SyncToken → Json
  | integer i => .integer i.toInt
  | string s => .string s

def SyncToken.ofJson? : Decoder SyncToken
  | .string s => some (string s)
  | j => (Decoder.int64 j).map integer

instance : Coded SyncToken := ⟨SyncToken.toJson, SyncToken.ofJson?⟩

end Provisioning
