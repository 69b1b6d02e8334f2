import Provisioning.Depot

/-! A host of connectors: which are registered, the pools they live in, the world they act on and the
time. -/

namespace Provisioning

structure Host (World AnyConfig : Type) where
  registry : Registry World AnyConfig := {}
  depot : Depot World AnyConfig := {}
  world : World
  now : Moment := 0

namespace Host

variable {World AnyConfig α : Type}

/-- Carries out a request to a pool. -/
def onPool (number : Nat) (request : Pool (Connector World) → Exchange (Connector World) α) :
    StateM (Host World AnyConfig) (Option α) := fun h =>
  match h.depot.pools[number]? with
  | none => (none, h)
  | some c =>
    let ((pool, result), world) := (request c.pool).run c.owner h.world
    (some result,
      { h with world, depot := { h.depot with pools := h.depot.pools.set number { c with pool } } })

/-- Borrows from a pool. No object comes back while a caller waits, so one that has to wait does so as
long as it may, and objects that are idle elsewhere grow older meanwhile. -/
def borrow (number : Nat) : Call (Host World AnyConfig) (Pooled (Connector World)) := fun h =>
  let waited := (h.depot.pools[number]?.map (·.pool.waitMs)).getD 0
  let (result?, h) := onPool number Pool.borrow h
  (result?.getD (.error (.failed .poolClosed)), { h with now := h.now + waited * 1000000 })

/-- Closes pools one after the other. -/
def shutDownPools : List Nat → StateM (Host World AnyConfig) Unit
  | [] => return
  | number :: rest => do
    let _ ← onPool number Pool.shutDown
    shutDownPools rest

def register (r : Registration World AnyConfig) : StateM (Host World AnyConfig) Unit :=
  modify fun h => { h with registry := h.registry.register r }

/-- The number of the pool for a configuration, if the connector is pooled. -/
def poolFor (r : Registration World AnyConfig) (c : ApiConfiguration) :
    Call (Host World AnyConfig) (Option Nat) := fun h =>
  match h.depot.poolFor r c with
  | .ok (number?, depot) => (.ok number?, { h with depot })
  | .error f => (.error (.failed f), h)

/-- Closes the pools of a connector. Objects handed out stay usable and are given up on their return. -/
def disposePools (key : ConnectorKey) : StateM (Host World AnyConfig) Unit := fun h =>
  let (numbers, depot) := h.depot.withdraw key
  shutDownPools numbers { h with depot }

/-- Closes all pools; no pool is made or used from then on. -/
def shutDown : StateM (Host World AnyConfig) Unit := fun h =>
  let (numbers, depot) := h.depot.withdrawAll
  shutDownPools numbers { h with depot }

/-- Lets time pass. -/
def advance (nanoseconds : Nat) : StateM (Host World AnyConfig) Unit :=
  modify fun h => { h with now := h.now + nanoseconds }

end Host

end Provisioning
