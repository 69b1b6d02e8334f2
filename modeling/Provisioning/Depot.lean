import Provisioning.Json.Writer
import Provisioning.Pool.Exchange
import Provisioning.Registry

/-! The pools of connectors. Callers share a pool when connector, properties and pool settings are the
same. A pool that was removed is closed, but stays known by its number to those who hold its objects. -/

namespace Provisioning

/-- What callers must have in common to share a pool. -/
structure PoolKey where
  connector : ConnectorKey
  /-- The JSON text of the properties. -/
  properties : String
  settings : PoolSettings
deriving DecidableEq

def PoolKey.of (c : ApiConfiguration) : PoolKey := ⟨c.connector, c.properties.write, c.pool⟩

/-- A pool of connectors with what it takes to make one. -/
structure ConnectorPool (World AnyConfig : Type) where
  registration : Registration World AnyConfig
  properties : Json
  pool : Pool (Connector World)

/-- Each connector of a pool is constructed from a configuration of its own. -/
def ConnectorPool.owner {World AnyConfig : Type} (c : ConnectorPool World AnyConfig) :
    PoolOwner World (Connector World) where
  make := do
    let config ← (fun w => (c.registration.bind c.properties, w) : Call World AnyConfig)
    c.registration.create config
  test connector := connector.checkAlive
  dispose connector := connector.dispose

structure Depot (World AnyConfig : Type) where
  /-- Every pool there ever was; a pool's number is its place here. -/
  pools : List (ConnectorPool World AnyConfig) := []
  /-- The pools in use. -/
  inUse : List (PoolKey × Nat) := []
  closed : Bool := false

namespace Depot

variable {World AnyConfig : Type}

/-- The number of the pool for a configuration, made if there is none yet; a connector that is not
pooled has none. -/
def poolFor (d : Depot World AnyConfig) (r : Registration World AnyConfig) (c : ApiConfiguration) :
    Except Failure (Option Nat × Depot World AnyConfig) :=
  if !r.isPoolable then .ok (none, d)
  else if d.closed then .error .poolClosed
  else
    match d.inUse.find? fun e => e.1 = PoolKey.of c with
    | some (_, number) => .ok (some number, d)
    | none => do
      let number := d.pools.length
      let pool ← Pool.create c.pool number
      return (some number,
        { d with
          pools := d.pools ++ [⟨r, c.properties, pool⟩]
          inUse := d.inUse ++ [(.of c, number)] })

/-- Takes the pools of a connector out of use; also gives their numbers. -/
def withdraw (d : Depot World AnyConfig) (key : ConnectorKey) : List Nat × Depot World AnyConfig :=
  ((d.inUse.filter fun e => e.1.connector = key).map Prod.snd,
    { d with inUse := d.inUse.filter fun e => e.1.connector ≠ key })

/-- Takes all pools out of use for good; also gives their numbers. -/
def withdrawAll (d : Depot World AnyConfig) : List Nat × Depot World AnyConfig :=
  (d.inUse.map Prod.snd, { d with inUse := [], closed := true })

/-- The statistics of the pools in use, each under the key of its connector. -/
def statistics (d : Depot World AnyConfig) : List (ConnectorKey × PoolStatistics) :=
  d.inUse.filterMap fun e => d.pools[e.2]?.map fun c => (e.1.connector, c.pool.statistics)

end Depot

end Provisioning
