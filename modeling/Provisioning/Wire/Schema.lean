import Provisioning.Json.Coded
import Provisioning.Schema

/-! JSON forms of schemas. -/

namespace Provisioning

open Json

def DataType.toJson (d : DataType) : Json := .string d.text

def DataType.ofJson? : Decoder DataType := .choice DataType.ofText?

instance : Coded DataType := ⟨DataType.toJson, DataType.ofJson?⟩

def AttributeInfo.toJson (a : AttributeInfo) : Json :=
  .object [("name", .string a.name), ("data_type", a.dataType.toJson), ("required", .bool a.required),
    ("multi_valued", .bool a.multiValued), ("creatable", .bool a.creatable),
    ("updateable", .bool a.updateable), ("readable", .bool a.readable),
    ("returned_by_default", .bool a.returnedByDefault)]

def AttributeInfo.fields : Fields AttributeInfo :=
  ((((((((Fields.pure AttributeInfo.mk).and (.required "name" .text)).and
    (.required "data_type" DataType.ofJson?)).and
    (.defaulted "required" .truth false)).and
    (.defaulted "multi_valued" .truth false)).and
    (.defaulted "creatable" .truth true)).and
    (.defaulted "updateable" .truth true)).and
    (.defaulted "readable" .truth true)).and
    (.defaulted "returned_by_default" .truth true)

def AttributeInfo.ofJson? : Decoder AttributeInfo := AttributeInfo.fields.decode

instance : Coded AttributeInfo := ⟨AttributeInfo.toJson, AttributeInfo.ofJson?⟩

def ObjectClassInfo.toJson (c : ObjectClassInfo) : Json :=
  .object [("type_name", .string c.typeName), ("container", .bool c.container),
    ("attributes", .array (c.attributes.map AttributeInfo.toJson))]

def ObjectClassInfo.fields : Fields ObjectClassInfo :=
  (((Fields.pure ObjectClassInfo.mk).and (.required "type_name" .text)).and
    (.defaulted "container" .truth false)).and
    (.required "attributes" (.list AttributeInfo.ofJson?))

def ObjectClassInfo.ofJson? : Decoder ObjectClassInfo := ObjectClassInfo.fields.decode

instance : Coded ObjectClassInfo := ⟨ObjectClassInfo.toJson, ObjectClassInfo.ofJson?⟩

def Operation.toJson (o : Operation) : Json := .string o.text

def Operation.ofJson? : Decoder Operation := .choice Operation.ofText?

instance : Coded Operation := ⟨Operation.toJson, Operation.ofJson?⟩

/-- Without restrictions nothing is written of them. -/
def Schema.toJson (s : Schema) : Json :=
  .object (("object_classes", .array (s.objectClasses.map ObjectClassInfo.toJson)) ::
    if s.restrictions.isEmpty then []
    else
      [("supported_object_classes_by_operation",
        .object (s.restrictions.map fun r => (r.1.text, .array (r.2.map .string))))])

/-- Restrictions by operation; of two for one operation the later counts. -/
def Schema.restrictionsOfJson? : Decoder (List (Operation × List String)) := fun j => do
  let ms ← Decoder.members (.list .text) j
  let named ← ms.mapM fun m => (Operation.ofText? m.1).map (·, m.2)
  return named.foldl (fun rs r => Schema.insertRestriction r.1 r.2 rs) []

def Schema.fields : Fields Schema :=
  ((Fields.pure Schema.mk).and (.required "object_classes" (.list ObjectClassInfo.ofJson?))).and
    (.defaulted "supported_object_classes_by_operation" Schema.restrictionsOfJson? [])

def Schema.ofJson? : Decoder Schema := Schema.fields.decode

instance : Coded Schema := ⟨Schema.toJson, Schema.ofJson?⟩

end Provisioning
