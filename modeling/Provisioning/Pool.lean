import Provisioning.Pool.Settings

/-! Pools: objects that are idle, the oldest first, and the places of those handed out. These are the
steps that a pool takes at once, without code of its owner running in between. -/

namespace Provisioning

/-- A moment, in nanoseconds from some fixed one. -/
abbrev Moment := Nat

/-- What a clock shows each time it is looked at; never an earlier moment than before. -/
structure Clock where
  reading : Nat → Moment
  monotone : ∀ {i j}, i ≤ j → reading i ≤ reading j

namespace Clock

/-- A clock that stands still. -/
def stopped (now : Moment) : Clock := ⟨fun _ => now, fun _ => Nat.le_refl now⟩

instance : Coe Moment Clock := ⟨stopped⟩

/-- The moment at the first look. -/
def now (c : Clock) : Moment := c.reading 0

/-- The clock after the first look. -/
def later (c : Clock) : Clock := ⟨fun i => c.reading (i + 1), fun h => c.monotone (Nat.succ_le_succ h)⟩

end Clock

/-- An object together with its place in the pool that made it. -/
structure Pooled (T : Type) where
  id : EntryId
  object : T
deriving DecidableEq

/-- An object that waits in its pool. -/
structure IdleEntry (T : Type) extends Pooled T where
  idleSince : Moment

structure PoolStatistics where
  idle : Nat
  active : Nat
deriving DecidableEq

structure Pool (T : Type) where
  settings : PoolSettings
  /-- Tells this pool from all others. -/
  number : Nat
  /-- The idle objects, those idle longest first. -/
  idle : List (IdleEntry T) := []
  /-- The places in use: of objects handed out, being tested or being made. -/
  active : List EntryId := []
  closed : Bool := false
  /-- How many places were ever given out. -/
  issued : Nat := 0

namespace Pool

variable {T : Type}

/-- A new pool, if its settings make sense. -/
def create (settings : PoolSettings) (number : Nat) : Except Failure (Pool T) := do
  settings.validate
  return { settings, number }

def statistics (p : Pool T) : PoolStatistics := ⟨p.idle.length, p.active.length⟩

/-- Whether a new object may be made: the places in use are fewer than the objects allowed. -/
def hasRoom (p : Pool T) : Bool := p.active.length < p.settings.maxObjects.toNat

/-- Whether a caller that wants an object has to wait for one. -/
def mustWait (p : Pool T) : Bool := !p.closed && p.idle.isEmpty && !p.hasRoom

/-- How many milliseconds a caller that wants an object waits if none comes back. -/
def waitMs (p : Pool T) : Nat := if p.mustWait then p.settings.maxWaitMs.toNat else 0

/-- Gives out a new place. -/
def reserve (p : Pool T) : EntryId × Pool T :=
  let id : EntryId := ⟨p.number, p.issued⟩
  (id, { p with active := id :: p.active, issued := p.issued + 1 })

/-- Takes back a place. -/
def release (p : Pool T) (id : EntryId) : Pool T := { p with active := p.active.erase id }

/-- Whether the oldest of the idle objects has to go: the pool is closed, there are too many, or there
are more than must stay and this one has been idle for too long. -/
def hasSurplus (p : Pool T) (now : Moment) : List (IdleEntry T) → Bool
  | [] => false
  | oldest :: rest =>
    let count := rest.length + 1
    p.closed || count > p.settings.maxIdle.toNat ||
      (count > p.settings.minIdle.toNat &&
        now - oldest.idleSince > p.settings.minEvictableIdleTimeMs.toNat * 1000000)

/-- The idle objects that have to go, and those that stay; the clock is looked at before each of them. -/
def splitSurplus (p : Pool T) : Clock → List (IdleEntry T) → List (IdleEntry T) × List (IdleEntry T)
  | _, [] => ([], [])
  | clock, oldest :: rest =>
    if p.hasSurplus clock.now (oldest :: rest) then
      let (gone, kept) := p.splitSurplus clock.later rest
      (oldest :: gone, kept)
    else ([], oldest :: rest)

/-- Drops the surplus of idle objects; also gives what was dropped, the oldest first. -/
def evict (p : Pool T) (clock : Clock) : List (IdleEntry T) × Pool T :=
  let (gone, kept) := p.splitSurplus clock p.idle
  (gone, { p with idle := kept })

/-- Puts an object that was handed out behind the idle ones. -/
def putBack (p : Pool T) (x : Pooled T) (now : Moment) : Pool T :=
  { p.release x.id with idle := p.idle ++ [{ x with idleSince := now }] }

/-- Closes the pool; also gives the objects that were idle. -/
def close (p : Pool T) : List (IdleEntry T) × Pool T := (p.idle, { p with idle := [], closed := true })

end Pool

end Provisioning
