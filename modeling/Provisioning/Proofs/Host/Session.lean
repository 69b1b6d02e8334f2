import Mathlib.Logic.Relation
import Provisioning.Proofs.Host.Custody

/-! Sessions. Callers register connectors, make facades, run operations, lease connectors and release them,
close pools and the host, in any order. Every instance that was ever constructed is in one place all the
time, and disposed of exactly once in the end: `every_instance_disposed_once`. -/

namespace Provisioning

structure Session (World AnyConfig : Type) where
  host : Host (Watched World AnyConfig) AnyConfig
  facades : List (Facade (Watched World AnyConfig) AnyConfig) := []
  leases : List (Lease (Watched World AnyConfig)) := []

namespace Session

variable {World AnyConfig : Type}

def start (w : World) : Session World AnyConfig := { host := { world := (w, {}) } }

def shutDown (s : Session World AnyConfig) : Session World AnyConfig :=
  { s with host := (Host.shutDown s.host).2 }

/-- What can be done next. Code of connectors may do anything to the world at any time, but not to the ledger. -/
inductive Step (s : Session World AnyConfig) : Session World AnyConfig → Prop
  | register (r : Registration World AnyConfig) : Step s { s with host := (Host.register r.watched s.host).2 }
  | newFacade {c f} : s.host.newFacade c = .ok f → Step s { s with facades := f :: s.facades }
  | poolStatistics {f} : f ∈ s.facades → Step s { s with host := (f.poolStatistics? s.host).2 }
  | operate {f h} : f ∈ s.facades → f.Performs s.host h → Step s { s with host := h }
  | acquire {f l h} : f ∈ s.facades → Lease.acquire f s.host = (.ok l, h) →
      Step s { s with host := h, leases := l :: s.leases }
  | acquireFailed {f b h} : f ∈ s.facades → Lease.acquire f s.host = (.error b, h) → Step s { s with host := h }
  | release {before l after} : s.leases = before ++ l :: after →
      Step s { s with host := (l.release s.host).2, leases := before ++ (l.release s.host).1 :: after }
  | drop {before l after} : s.leases = before ++ l :: after →
      Step s { s with host := (l.release s.host).2, leases := before ++ after }
  | dispose {f} : f ∈ s.facades → Step s { s with host := (f.dispose s.host).2 }
  | shutDown : Step s s.shutDown
  | advance (nanoseconds : Nat) : Step s { s with host := (Host.advance nanoseconds s.host).2 }
  | work (w : World) : Step s { s with host := { s.host with world := (w, s.host.world.2) } }

abbrev Reaches : Session World AnyConfig → Session World AnyConfig → Prop := Relation.ReflTransGen Step

def ledger (s : Session World AnyConfig) : Ledger World AnyConfig := s.host.world.2

def held (s : Session World AnyConfig) : List (Held (Watched World AnyConfig)) := s.leases.filterMap Lease.held?

def heldNumbers (origin : World) (s : Session World AnyConfig) : List Nat :=
  s.held.map fun x => x.connector.number origin

structure Sound (origin : World) (shut : Prop) (s : Session World AnyConfig) : Prop where
  host : s.host.Sound origin shut [] s.held
  facades : ∀ f ∈ s.facades, f.registration.IsWatched

theorem eq_of_newFacade {World AnyConfig : Type} {h : Host World AnyConfig} {c : ApiConfiguration}
    {f : Facade World AnyConfig} (hf : h.newFacade c = .ok f) :
    f.configuration = c ∧ h.registry.find? c.connector = some f.registration := by
  unfold Host.newFacade Registry.find at hf
  cases hfind : h.registry.find? c.connector with
  | none => rw [hfind] at hf; cases hf
  | some r =>
    rw [hfind] at hf
    dsimp only [bind, Except.bind, pure, Except.pure] at hf
    split at hf
    · cases hv : c.pool.validate with
      | error failure => rw [hv] at hf; cases hf
      | ok u => rw [hv] at hf; cases hf; exact ⟨rfl, rfl⟩
    · cases hf
      exact ⟨rfl, rfl⟩

theorem watched_of_newFacade {h : Host (Watched World AnyConfig) AnyConfig} {c : ApiConfiguration}
    {f : Facade (Watched World AnyConfig) AnyConfig} (hr : ∀ r ∈ h.registry.registrations, r.IsWatched)
    (hf : h.newFacade c = .ok f) : f.registration.IsWatched :=
  hr _ (List.mem_of_find?_eq_some (eq_of_newFacade hf).2)

theorem held_perm (before after : List (Lease (Watched World AnyConfig))) (l : Lease (Watched World AnyConfig)) :
    ((before ++ l :: after).filterMap Lease.held?).Perm
      (l.held?.toList ++ (before ++ after).filterMap Lease.held?) := by
  rw [List.filterMap_append, List.filterMap_append, List.filterMap_cons]
  cases l.held? with
  | none => exact .refl _
  | some x => exact List.perm_middle

theorem held_of_none {before after : List (Lease (Watched World AnyConfig))} {l : Lease (Watched World AnyConfig)}
    (hl : l.held? = none) :
    (before ++ l :: after).filterMap Lease.held? = (before ++ after).filterMap Lease.held? := by
  rw [List.filterMap_append, List.filterMap_append, List.filterMap_cons_none hl]

theorem snd_poolStatistics (f : Facade (Watched World AnyConfig) AnyConfig)
    (h : Host (Watched World AnyConfig) AnyConfig) :
    (f.poolStatistics? h).2 = (Host.poolFor f.registration f.configuration h).2 := by
  unfold Facade.poolStatistics?
  rw [Call.bind_apply, Facade.poolNumber?]
  rcases Host.poolFor f.registration f.configuration h with ⟨b | _ | number, h'⟩ <;> rfl

theorem Sound.step {origin : World} {shut : Prop} {s s' : Session World AnyConfig} (hs : s.Sound origin shut)
    (h : Step s s') : s'.Sound origin shut := by
  cases h with
  | register r => exact { hs with host := hs.host.register ⟨r, rfl⟩ }
  | newFacade hf =>
    exact ⟨hs.host, List.forall_mem_cons.2 ⟨watched_of_newFacade hs.host.registered hf, hs.facades⟩⟩
  | @poolStatistics f hf =>
    refine { hs with host := ?_ }
    rw [snd_poolStatistics]
    exact hs.host.poolFor (hs.facades f hf) f.configuration
  | operate hf hp => exact { hs with host := hs.host.performs (hs.facades _ hf) hp }
  | @acquire f l h hf hl =>
    refine { hs with host := ?_ }
    rcases hs.host.acquire (hs.facades f hf) with ⟨b, h', hfailed, -⟩ | ⟨held, h', hacquired, hafter⟩
    · cases hl.symm.trans hfailed
    · cases hl.symm.trans hacquired
      exact hafter
  | @acquireFailed f b h hf hl =>
    refine { hs with host := ?_ }
    rcases hs.host.acquire (hs.facades f hf) with ⟨b, h', hfailed, hafter⟩ | ⟨held, h', hacquired, -⟩
    · cases hl.symm.trans hfailed
      exact hafter
    · cases hl.symm.trans hacquired
  | @release before l after hl =>
    have hheld := hs.host
    rw [held, hl] at hheld
    obtain ⟨hnone, hafter⟩ := (hheld.perm (held_perm before after l)).release
    -- the lease stays with its caller, but holds nothing
    exact { hs with host := by rw [held, held_of_none hnone]; exact hafter }
  | @drop before l after hl =>
    have hheld := hs.host
    rw [held, hl] at hheld
    exact { hs with host := (hheld.perm (held_perm before after l)).release.2 }
  | dispose hf => exact { hs with host := hs.host.disposePools _ }
  | shutDown =>
    have hafter := hs.host.shutDown
    exact { hs with host := { hafter with shut_down := fun _ => hafter.shut_down trivial } }
  | advance nanoseconds => exact { hs with host := hs.host.later _ }
  | work w => exact { hs with host := hs.host.world rfl }

theorem Sound.run {origin : World} {shut : Prop} {s s' : Session World AnyConfig} (hs : s.Sound origin shut)
    (h : Reaches s s') : s'.Sound origin shut := by
  induction h with
  | refl => exact hs
  | tail _ hstep ih => exact ih.step hstep

theorem sound_start (w : World) : (start w : Session World AnyConfig).Sound w False where
  host :=
    { registered := nofun
      pools := nofun
      used := nofun
      unused := fun _ => rfl
      shut_down := False.elim
      fits := nofun
      balanced := .refl _ }
  facades := nofun

theorem Sound.shutDown {origin : World} {shut : Prop} {s : Session World AnyConfig} (hs : s.Sound origin shut) :
    s.shutDown.Sound origin True :=
  { hs with host := hs.host.shutDown }

theorem Sound.idle_eq_nil {origin : World} {s : Session World AnyConfig} (hs : s.Sound origin True) :
    s.host.idle origin = [] := by
  refine List.flatMap_eq_nil_iff.2 fun c hc => ?_
  obtain ⟨i, hi⟩ := List.getElem?_of_mem hc
  -- no pool is in use any more, and a pool out of use is closed
  have hclosed : c.pool.closed = true := by
    rcases hs.host.used hi with hclosed | hused
    · exact hclosed
    · rw [hs.host.unused (hs.host.shut_down trivial)] at hused
      cases hused
  have hidle := (hs.host.pools c hc).drained hclosed
  rw [ConnectorPool.idle, Pool.stock, hidle]
  rfl

/-- What leases hold and what is idle in pools are instances, and each instance is in one place: held by a
lease, idle in a pool, or disposed of. -/
structure InOnePlace (origin : World) (s : Session World AnyConfig) : Prop where
  leased : ∀ x ∈ s.held, x.connector.IsInstance
  pooled : ∀ c ∈ s.host.depot.pools, ∀ x ∈ c.pool.stock, x.object.IsInstance
  somewhere : ∀ n, n < s.ledger.made ↔
    n ∈ s.heldNumbers origin ∨ n ∈ s.host.idle origin ∨ n ∈ s.ledger.disposed
  once : (s.heldNumbers origin ++ s.host.idle origin ++ s.ledger.disposed).Nodup

theorem Sound.inOnePlace {origin : World} {shut : Prop} {s : Session World AnyConfig}
    (hs : s.Sound origin shut) : s.InOnePlace origin := by
  have hbalanced : s.ledger.Balanced (s.heldNumbers origin ++ s.host.idle origin) :=
    hs.host.balanced.perm List.perm_append_comm
  refine ⟨fun x hx => (hs.host.fits x hx).isInstance, fun c hc => (hs.host.pools c hc).instances,
    fun n => ?_, hbalanced.nodup⟩
  rw [← List.mem_range, List.Perm.mem_iff hbalanced, List.mem_append, List.mem_append, or_assoc]

/-- Each instance is in one place, and no instance is disposed of twice; all of them are, once the host is shut
down and no lease holds anything. -/
theorem every_instance_disposed_once {w : World} {s : Session World AnyConfig} (h : Reaches (start w) s) :
    s.InOnePlace w ∧
    ∀ s', Reaches s.shutDown s' → (∀ l ∈ s'.leases, l.held? = none) →
      s'.ledger.disposed.Perm (List.range s'.ledger.made) := by
  have hs := (sound_start w).run h
  refine ⟨hs.inOnePlace, fun s' h' hreleased => ?_⟩
  have hs' := hs.shutDown.run h'
  have hheld : s'.held = [] := List.filterMap_eq_nil_iff.2 hreleased
  have hbalanced := hs'.host.balanced
  rw [hs'.idle_eq_nil, hheld] at hbalanced
  exact hbalanced.symm

def idler : Registration Unit Unit where
  key := default
  capabilities := .ofList [.pool]
  bind _ := .ok ()
  create _ := pure Connector.bare

def idlerFacade : Facade (Watched Unit Unit) Unit := ⟨idler.watched, { connector := default }⟩

def idlerInstance (n : Nat) : Pooled (Connector (Watched Unit Unit)) := ⟨⟨0, n⟩, Connector.bare.numbered n⟩

/-- Two instances were leased, and the second was released. -/
def idling : Session Unit Unit where
  host :=
    { registry := ⟨[idler.watched]⟩
      depot :=
        { pools := [⟨idler.watched, .object [],
            { settings := {}, number := 0, idle := [⟨idlerInstance 1, 0⟩], active := [⟨0, 0⟩], issued := 2 }⟩]
          inUse := [(.of idlerFacade.configuration, 0)] }
      world := ((), { constructions := [⟨idler, ()⟩, ⟨idler, ()⟩] }) }
  facades := [idlerFacade]
  leases := [⟨none⟩, ⟨some (.pooled 0 (idlerInstance 0))⟩]

/-- One instance is disposed of when the host is shut down, the other when its lease is released after that. -/
theorem every_instance_disposed_once_late_release :
    Reaches (start ()) idling ∧ idling.InOnePlace () ∧
    ∃ s, Reaches idling.shutDown s ∧ (∀ l ∈ s.leases, l.held? = none) ∧ s.ledger.disposed.Perm [0, 1] := by
  let first : Lease (Watched Unit Unit) := ⟨some (.pooled 0 (idlerInstance 0))⟩
  let second : Lease (Watched Unit Unit) := ⟨some (.pooled 0 (idlerInstance 1))⟩
  have hmade : Reaches (start ()) ⟨_, [idlerFacade], []⟩ :=
    (Relation.ReflTransGen.single (.register idler)).tail (.newFacade (c := idlerFacade.configuration) rfl)
  have hleased : Reaches (start ()) ⟨_, [idlerFacade], [second, first]⟩ :=
    (hmade.tail (.acquire List.mem_cons_self rfl)).tail (.acquire List.mem_cons_self rfl)
  have hrun : Reaches (start ()) idling := hleased.tail (@Step.release _ _ _ [] second [first] rfl)
  obtain ⟨hplace, hend⟩ := every_instance_disposed_once hrun
  have hlast : Reaches idling.shutDown ⟨_, _, [⟨none⟩, ⟨none⟩]⟩ :=
    .single (@Step.release _ _ _ [⟨none⟩] first [] rfl)
  have hreleased : ∀ l ∈ [(⟨none⟩ : Lease (Watched Unit Unit)), ⟨none⟩], l.held? = none := by decide
  exact ⟨hrun, hplace, _, hlast, hreleased, hend _ hlast hreleased⟩

end Session

end Provisioning
