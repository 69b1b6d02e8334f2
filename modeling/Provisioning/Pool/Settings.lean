import Provisioning.Failure

/-! How many objects a pool may hold, how long a caller waits for one, and how long one stays idle. -/

namespace Provisioning

structure PoolSettings where
  maxObjects : UInt32 := 10
  maxIdle : UInt32 := 10
  minIdle : UInt32 := 1
  maxWaitMs : UInt64 := 150000
  minEvictableIdleTimeMs : UInt64 := 120000
deriving DecidableEq, Inhabited

namespace PoolSettings

/-- There is room for an object, and no more are kept idle than there may be. -/
def validate (s : PoolSettings) : Except Failure Unit :=
  if s.maxObjects = 0 then .error (.invalidConfiguration .noObjects)
  else if s.minIdle > s.maxIdle then
    .error (.invalidConfiguration (.minIdleAboveMaxIdle s.minIdle s.maxIdle))
  else if s.maxIdle > s.maxObjects then
    .error (.invalidConfiguration (.maxIdleAboveMaxObjects s.maxIdle s.maxObjects))
  else .ok ()

end PoolSettings

end Provisioning
