import Provisioning.Host

/-! Facades: what callers hold to use a connector. A facade keeps the registration that was there when
it was made, whatever is registered later. -/

namespace Provisioning

/-- A connector as callers see it: as it was registered when they asked, and as they configured it. -/
structure Facade (World AnyConfig : Type) where
  registration : Registration World AnyConfig
  configuration : ApiConfiguration

namespace Facade

variable {World AnyConfig : Type}

def key (f : Facade World AnyConfig) : ConnectorKey := f.registration.key

/-- The configuration that the properties describe. -/
def bind (f : Facade World AnyConfig) : Outcome AnyConfig :=
  f.registration.bind f.configuration.properties

def poolNumber? (f : Facade World AnyConfig) : Call (Host World AnyConfig) (Option Nat) :=
  Host.poolFor f.registration f.configuration

/-- The operations that the connector declares. -/
def supportedOperations (f : Facade World AnyConfig) : List Operation := f.registration.capabilities.supported

/-- Checks the configuration without a connector. -/
def validate (f : Facade World AnyConfig) : Outcome Unit := f.bind.map fun _ => ()

/-- How many connectors are idle and in use, if the connector is pooled; its pool is made if need be. -/
def poolStatistics? (f : Facade World AnyConfig) : Call (Host World AnyConfig) (Option PoolStatistics) := do
  match ← f.poolNumber? with
  | none => return none
  | some number => return (← MonadState.get).depot.pools[number]?.map fun c => c.pool.statistics

/-- Closes the pools of the connector, those of other configurations included. -/
def dispose (f : Facade World AnyConfig) : StateM (Host World AnyConfig) Unit := Host.disposePools f.key

end Facade

namespace Host

variable {World AnyConfig : Type}

/-- A facade for a configuration: its connector must be registered, and its pool settings make sense
if it is pooled. -/
def newFacade (h : Host World AnyConfig) (c : ApiConfiguration) : Except Failure (Facade World AnyConfig) := do
  let registration ← h.registry.find c.connector
  if registration.isPoolable then c.pool.validate
  return ⟨registration, c⟩

end Host

end Provisioning
