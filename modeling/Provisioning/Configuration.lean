import Provisioning.Json
import Provisioning.Pool.Settings

/-! What a caller configures: which connector to use, with which properties, and how to pool it. -/

namespace Provisioning

structure ApiConfiguration where
  connector : ConnectorKey
  properties : Json := .object []
  pool : PoolSettings := {}
deriving Inhabited

/-- A script for a connector or its system to run. -/
structure Script where
  language : String
  text : String
  /-- Sorted by name, no name twice. -/
  arguments : List (String × Json) := []
deriving Inhabited

end Provisioning
