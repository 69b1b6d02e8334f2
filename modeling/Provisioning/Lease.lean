import Provisioning.Facade

/-! Leases of connectors. A lease holds a connector out of a pool or one of its own, until it is
released; to release it again does nothing. -/

namespace Provisioning

/-- Where a leased connector comes from. -/
inductive Held (World : Type) where
  | pooled (pool : Nat) (object : Pooled (Connector World))
  | own (connector : Connector World)

def Held.connector {World : Type} : Held World → Connector World
  | pooled _ object => object.object
  | own connector => connector

/-- A connector for a caller's use; nothing once it is released. -/
structure Lease (World : Type) where
  held? : Option (Held World)

namespace Lease

variable {World AnyConfig : Type}

/-- Leases a connector from the pool of the facade, or constructs one where there is no pool. -/
def acquire (f : Facade World AnyConfig) : Call (Host World AnyConfig) (Lease World) := do
  match ← f.poolNumber? with
  | some number => return ⟨some (.pooled number (← Host.borrow number))⟩
  | none =>
    let config ← (fun h => (f.bind, h) : Call (Host World AnyConfig) AnyConfig)
    fun h =>
      let (made, world) := (f.registration.create config).run h.world
      (made.map fun connector => ⟨some (.own connector)⟩, { h with world })

/-- The leased connector, as long as the lease is not released. -/
def connector (l : Lease World) : Except Failure (Connector World) :=
  match l.held? with
  | some held => .ok held.connector
  | none => .error (.illegalState .leaseReleased)

/-- Gives the connector back to its pool, or gives up one of its own; a failure of either is of no
concern to the caller. -/
def release (l : Lease World) : StateM (Host World AnyConfig) (Lease World) := fun h =>
  match l.held? with
  | none => (l, h)
  | some (.pooled number object) =>
    (⟨none⟩, (Host.onPool number (fun p => p.giveBack object h.now) h).2)
  | some (.own connector) => (⟨none⟩, { h with world := (connector.dispose h.world).2 })

end Lease

end Provisioning
