import Provisioning.Connector
import Provisioning.Pool

/-! Requests to a pool. Between its steps a pool calls its owner, who makes, tests and disposes of
objects; an exchange is a request in progress, with the pool as it stands at each such call. -/

namespace Provisioning

inductive Exchange (T α : Type) where
  | done (pool : Pool T) (result : α)
  /-- An object is to be made for a place. -/
  | make (pool : Pool T) (id : EntryId) (next : Outcome T → Exchange T α)
  /-- An object is about to be handed out: does it still work? -/
  | test (pool : Pool T) (entry : Pooled T) (next : Outcome Unit → Exchange T α)
  /-- An object has left the pool for good. Whether giving it up fails makes no difference. -/
  | dispose (pool : Pool T) (entry : Pooled T) (next : Exchange T α)

/-- The owner of a pool. -/
structure PoolOwner (World T : Type) where
  make : Call World T
  test : T → Call World Unit
  dispose : T → World → Except Failure Unit × World

/-- Carries out an exchange with an owner. -/
def Exchange.run {World T α : Type} (owner : PoolOwner World T) : Exchange T α → World → (Pool T × α) × World
  | done pool result, w => ((pool, result), w)
  | make _ _ next, w =>
    let (made, w) := owner.make.run w
    (next made).run owner w
  | test _ entry next, w =>
    let (tested, w) := (owner.test entry.object).run w
    (next tested).run owner w
  | dispose _ entry next, w => next.run owner (owner.dispose entry.object w).2

namespace Pool

variable {T α : Type}

/-- Gives up objects one after the other. -/
def disposeAll (p : Pool T) (result : α) : List (IdleEntry T) → Exchange T α
  | [] => .done p result
  | e :: rest => .dispose p e.toPooled (p.disposeAll result rest)

/-- Hands out an object that passes its test; the place of one that does not is free again, and the
object given up, before anything else happens. -/
def handOut (p : Pool T) (x : Pooled T) (otherwise : Pool T → Failure → Exchange T (Outcome (Pooled T))) :
    Exchange T (Outcome (Pooled T)) :=
  .test p x fun
    | .ok () => .done p (.ok x)
    | .error (.failed f) => .dispose (p.release x.id) x (otherwise (p.release x.id) f)
    | .error .aborted => .dispose (p.release x.id) x (.done (p.release x.id) (.error .aborted))

/-- Makes an object and hands it out; a failure frees its place. -/
def handOutNew (p : Pool T) : Exchange T (Outcome (Pooled T)) :=
  let (id, p) := p.reserve
  .make p id fun
    | .ok object => p.handOut ⟨id, object⟩ fun p f => .done p (.error (.failed f))
    | .error b => .done (p.release id) (.error b)

/-- Hands out one of the idle objects, the oldest that passes its test; else a new one, if there is
room; else nobody returns an object in time, and the caller has waited in vain. -/
def borrowFrom (p : Pool T) : List (IdleEntry T) → Exchange T (Outcome (Pooled T))
  | [] =>
    let p := { p with idle := [] }
    if p.hasRoom then p.handOutNew
    else .done p (.error (.failed (.poolExhausted p.settings.maxWaitMs.toNat)))
  | oldest :: rest =>
    { p with idle := rest, active := oldest.id :: p.active }.handOut oldest.toPooled
      fun _ _ => p.borrowFrom rest

/-- Borrows an object. -/
def borrow (p : Pool T) : Exchange T (Outcome (Pooled T)) :=
  if p.closed then .done p (.error (.failed .poolClosed)) else p.borrowFrom p.idle

/-- Returns an object. One that this pool has not handed out is given up. -/
def giveBack (p : Pool T) (x : Pooled T) (clock : Clock) : Exchange T (Except Failure Unit) :=
  if x.id ∈ p.active then
    let (gone, p) := (p.putBack x clock.now).evict clock.later
    p.disposeAll (.ok ()) gone
  else .dispose p x (.done p (.error (.illegalState (.notActive x.id))))

/-- Gives up the surplus of idle objects. -/
def trim (p : Pool T) (clock : Clock) : Exchange T Unit :=
  let (gone, p) := p.evict clock
  p.disposeAll () gone

/-- Closes the pool and gives up what is idle. -/
def shutDown (p : Pool T) : Exchange T Unit :=
  let (gone, p) := p.close
  p.disposeAll () gone

end Pool

end Provisioning
