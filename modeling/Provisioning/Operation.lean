/-! What callers may ask of a connector, what a connector can declare, and which of the one needs
which of the other. -/

namespace Provisioning

/-- A request that callers may make. -/
inductive Operation where
  | authenticate
  | create
  | delete
  | get
  | resolveUsername
  | schema
  | scriptOnConnector
  | scriptOnResource
  | search
  | sync
  | test
  | update
  | validate
deriving DecidableEq, Inhabited

namespace Operation

/-- All operations, in the order in which they are listed. -/
def all : List Operation :=
  [authenticate, create, delete, get, resolveUsername, schema, scriptOnConnector, scriptOnResource,
    search, sync, test, update, validate]

def text : Operation → String
  | authenticate => "authenticate"
  | create => "create"
  | delete => "delete"
  | get => "get"
  | resolveUsername => "resolve_username"
  | schema => "schema"
  | scriptOnConnector => "script_on_connector"
  | scriptOnResource => "script_on_resource"
  | search => "search"
  | sync => "sync"
  | test => "test"
  | update => "update"
  | validate => "validate"

def ofText? (s : String) : Option Operation := all.find? fun o => o.text = s

/-- The place in the list of all operations. -/
def index (o : Operation) : Nat := all.idxOf o

end Operation

/-- Something that a connector declares it can do. -/
inductive Capability where
  | authenticate
  | create
  | delete
  | pool
  | resolveUsername
  | schema
  | scriptOnConnector
  | scriptOnResource
  | search
  | sync
  | test
  | update
  | updateAttributeValues
deriving DecidableEq, Inhabited

namespace Capability

def all : List Capability :=
  [authenticate, create, delete, pool, resolveUsername, schema, scriptOnConnector, scriptOnResource,
    search, sync, test, update, updateAttributeValues]

def text : Capability → String
  | authenticate => "authenticate"
  | create => "create"
  | delete => "delete"
  | pool => "pool"
  | resolveUsername => "resolve_username"
  | schema => "schema"
  | scriptOnConnector => "script_on_connector"
  | scriptOnResource => "script_on_resource"
  | search => "search"
  | sync => "sync"
  | test => "test"
  | update => "update"
  | updateAttributeValues => "update_attribute_values"

def ofText? (s : String) : Option Capability := all.find? fun c => c.text = s

end Capability

/-- A set of capabilities, known by its members. -/
structure CapabilitySet where
  has : Capability → Bool

namespace CapabilitySet

def empty : CapabilitySet := ⟨fun _ => false⟩

instance : Inhabited CapabilitySet := ⟨empty⟩

def insert (s : CapabilitySet) (c : Capability) : CapabilitySet := ⟨fun d => d = c || s.has d⟩

def ofList (cs : List Capability) : CapabilitySet := ⟨fun c => c ∈ cs⟩

/-- The members in the order in which capabilities are listed. -/
def toList (s : CapabilitySet) : List Capability := Capability.all.filter s.has

def isEmpty (s : CapabilitySet) : Bool := s.toList.isEmpty

instance : BEq CapabilitySet := ⟨fun s t => s.toList == t.toList⟩

/-- Reading an object needs search, an update needs either kind of update, validation needs nothing;
every other operation needs the capability of its own name. -/
def supports (s : CapabilitySet) : Operation → Bool
  | .authenticate => s.has .authenticate
  | .create => s.has .create
  | .delete => s.has .delete
  | .get | .search => s.has .search
  | .resolveUsername => s.has .resolveUsername
  | .schema => s.has .schema
  | .scriptOnConnector => s.has .scriptOnConnector
  | .scriptOnResource => s.has .scriptOnResource
  | .sync => s.has .sync
  | .test => s.has .test
  | .update => s.has .update || s.has .updateAttributeValues
  | .validate => true

/-- The operations that the capabilities support, in the order in which operations are listed. -/
def supported (s : CapabilitySet) : List Operation := Operation.all.filter s.supports

end CapabilitySet

end Provisioning
