import Provisioning.Json.Decoder
import Provisioning.Json.Reader
import Provisioning.Json.Writer

/-! Data with a JSON form: how it is written, and what is read as it. -/

namespace Provisioning

class Coded (α : Type) where
  toJson : α → Json
  ofJson? : Json.Decoder α

namespace Coded

variable {α : Type} [Coded α]

/-- The JSON text of a value. -/
def text (a : α) : String := (toJson a).write

/-- The value that a JSON text stands for. -/
def ofText? (s : String) : Option α := (Json.read? s).bind ofJson?

end Coded

end Provisioning
