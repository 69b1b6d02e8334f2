import Provisioning.Connector

/-! Which connectors there are, under which keys, and how each is configured and constructed.
Configurations of all kinds travel as one type; a kind of connector reads back only its own. -/

namespace Provisioning

/-- A kind of connector with its own type of configuration. -/
structure ConnectorClass (World Config : Type) where
  capabilities : CapabilitySet
  decode : Json → Except Failure Config
  validate : Config → Except Failure Unit
  create : Config → Call World (Connector World)

/-- A connector as it was registered. -/
structure Registration (World AnyConfig : Type) where
  key : ConnectorKey
  capabilities : CapabilitySet
  /-- The configuration that properties describe. -/
  bind : Json → Outcome AnyConfig
  create : AnyConfig → Call World (Connector World)

namespace Registration

variable {World AnyConfig : Type}

/-- The registration of a kind of connector, whose configurations are among those of type `AnyConfig`.
A configuration is validated as soon as it is bound. -/
def of {Config : Type} (key : ConnectorKey) (cls : ConnectorClass World Config)
    (inject : Config → AnyConfig) (project? : AnyConfig → Option Config) : Registration World AnyConfig where
  key
  capabilities := cls.capabilities
  bind properties := Outcome.ofExcept do
    let config ← cls.decode properties
    cls.validate config
    return inject config
  create any :=
    match project? any with
    | some config => cls.create config
    | none => Call.fail (.internal .foreignConfiguration)

def isPoolable (r : Registration World AnyConfig) : Bool := r.capabilities.has .pool

end Registration

/-- The registered connectors, at most one under each key. -/
structure Registry (World AnyConfig : Type) where
  registrations : List (Registration World AnyConfig) := []

namespace Registry

variable {World AnyConfig : Type}

/-- Registers a connector; an earlier one under the same key gives way. -/
def register (r : Registry World AnyConfig) (new : Registration World AnyConfig) :
    Registry World AnyConfig :=
  ⟨new :: r.registrations.filter fun old => old.key ≠ new.key⟩

def find? (r : Registry World AnyConfig) (key : ConnectorKey) : Option (Registration World AnyConfig) :=
  r.registrations.find? fun known => known.key = key

def find (r : Registry World AnyConfig) (key : ConnectorKey) :
    Except Failure (Registration World AnyConfig) :=
  match r.find? key with
  | some known => .ok known
  | none => .error (.connectorNotFound key)

/-- The keys in order. -/
def keys (r : Registry World AnyConfig) : List ConnectorKey :=
  (r.registrations.map Registration.key).mergeSort fun a b => (compare a b).isLE

end Registry

end Provisioning
