import Provisioning.Proofs.Pool.Borrowing
import Provisioning.Proofs.Requests

/-! Refusals. By its kind a failure is to tell a caller whether there was a connector for the request at all. It does
if the code that provides connectors reports failures of dispatch only, and if a connector has the abilities that
were declared for it: `dispatch_failure_iff_not_leased`. Otherwise a request may be refused by a failure that looks
like one at work, and one that was at work may fail as if it had been refused. -/

namespace Provisioning

variable {World AnyConfig T : Type}

def Call.MayReport {α : Type} (call : Call World α) (e : Failure) : Prop := ∃ w, e ∈ Outcome.failure? (call w).1

/-- What it takes of its owner that a pool can hand out a new object. -/
def PoolOwner.provide (owner : PoolOwner World T) : Call World Unit := owner.make >>= owner.test

theorem PoolSettings.isDispatchFailure_of_validate {settings : PoolSettings} {e : Failure}
    (he : settings.validate = .error e) : e.isDispatchFailure = true := by
  unfold validate at he
  split at he
  · cases he
    rfl
  · split at he
    · cases he
      rfl
    · split at he
      · cases he
        rfl
      · cases he

namespace Pool

theorem Borrowed.failure {p q : Pool T} {calls : List (OwnerCall T)} {r : Outcome (Pooled T)} {e : Failure}
    (h : Borrowed p calls q r) (he : e ∈ Outcome.failure? r) {owner : PoolOwner World T} {w : World}
    (hanswers : owner.Answers calls w) : e.isDispatchFailure = true ∨ owner.provide.MayReport e := by
  obtain ⟨-, hsettled⟩ := h
  obtain ⟨w', hlast⟩ := hanswers.later
  cases hsettled with
  | reused => cases he
  | brokenOff => cases he
  | made => cases he
  | spoiled object b =>
    obtain ⟨hmade, htested, -⟩ := hlast
    refine .inr ⟨w', ?_⟩
    rw [PoolOwner.provide, Call.bind_apply, ← Prod.eta (owner.make w'), hmade]
    dsimp only
    rw [htested]
    exact he
  | unmade b =>
    obtain ⟨hmade, -⟩ := hlast
    refine .inr ⟨w', ?_⟩
    rw [PoolOwner.provide, Call.bind_apply, ← Prod.eta (owner.make w'), hmade]
    exact he
  | exhausted =>
    cases he
    exact .inl rfl

/-- A pool that hands out nothing is closed or exhausted, or its owner could not provide an object. -/
theorem failure_of_borrow {p : Pool T} {owner : PoolOwner World T} {w : World} {e : Failure}
    (he : e ∈ Outcome.failure? (p.borrow.run owner w).1.2) :
    e.isDispatchFailure = true ∨ owner.provide.MayReport e := by
  obtain ⟨calls, hends, hanswers⟩ := p.borrow.answers_run owner w
  cases hopen : p.closed with
  | false => exact ((ends_borrow_iff_of_open hopen).1 hends).failure he hanswers
  | true =>
    unfold borrow at he
    rw [if_pos hopen] at he
    cases he
    exact .inl rfl

theorem isDispatchFailure_of_create {settings : PoolSettings} {number : Nat} {e : Failure}
    (he : Pool.create (T := T) settings number = .error e) : e.isDispatchFailure = true := by
  cases hv : settings.validate with
  | ok u =>
    rw [Pool.create, hv] at he
    cases he
  | error e' =>
    rw [Pool.create, hv] at he
    cases he
    exact PoolSettings.isDispatchFailure_of_validate hv

end Pool

theorem Depot.isDispatchFailure_of_poolFor {d : Depot World AnyConfig} {r : Registration World AnyConfig}
    {c : ApiConfiguration} {e : Failure} (he : d.poolFor r c = .error e) : e.isDispatchFailure = true := by
  unfold poolFor at he
  split at he
  · cases he
  · split at he
    · cases he
      rfl
    · split at he
      · cases he
      · dsimp only at he
        cases hcreate : Pool.create c.pool d.pools.length with
        | error e' =>
          rw [hcreate] at he
          cases he
          exact Pool.isDispatchFailure_of_create hcreate
        | ok pool =>
          rw [hcreate] at he
          cases he

namespace Host

theorem failure_of_borrow {number : Nat} {h : Host World AnyConfig} {e : Failure}
    (he : e ∈ Outcome.failure? (borrow number h).1) :
    e.isDispatchFailure = true ∨ ∃ c, h.depot.pools[number]? = some c ∧ c.owner.provide.MayReport e := by
  obtain ⟨now, hborrow⟩ := borrow_eq number h
  rw [hborrow] at he
  have hhandled := onPool_handled number Pool.borrow h
  generalize onPool number Pool.borrow h = ended at hhandled he
  cases hhandled with
  | unknown =>
    cases he
    exact .inl rfl
  | @run c q r w hc hrun =>
    have hr : r = (c.pool.borrow.run c.owner h.world).1.2 := by rw [hrun]
    subst hr
    exact (Pool.failure_of_borrow he).imp id fun hmay => ⟨c, hc, hmay⟩

theorem isDispatchFailure_of_poolFor {r : Registration World AnyConfig} {c : ApiConfiguration}
    {h h' : Host World AnyConfig} {b : Breakdown} (hp : poolFor r c h = (.error b, h')) :
    ∃ e, b = .failed e ∧ e.isDispatchFailure = true := by
  unfold poolFor at hp
  split at hp
  · cases hp
  · next e hrefused =>
    cases hp
    exact ⟨e, rfl, Depot.isDispatchFailure_of_poolFor hrefused⟩

end Host

namespace Facade

def construct (f : Facade World AnyConfig) : Call World (Connector World) := fun w =>
  match f.bind with
  | .ok config => f.registration.create config w
  | .error b => (.error b, w)

/-- Code may report the failure that constructs a connector, for a caller or for the pool, or that tells
whether a new one works. -/
inductive FailsToProvide (f : Facade World AnyConfig) (h : Host World AnyConfig) (e : Failure) : Prop
  | own : f.poolNumber? h = (.ok none, h) → e ∈ Outcome.failure? (f.construct h.world).1 → f.FailsToProvide h e
  | pooled {number : Nat} {h₁ : Host World AnyConfig} {c : ConnectorPool World AnyConfig} :
      f.poolNumber? h = (.ok (some number), h₁) → h₁.depot.pools[number]? = some c → c.owner.provide.MayReport e →
      f.FailsToProvide h e

def Leases (f : Facade World AnyConfig) (o : Operation) (h : Host World AnyConfig) : Prop :=
  f.registration.capabilities.supports o = true ∧ ∃ held h', Lease.acquire f h = (.ok ⟨some held⟩, h')

end Facade

namespace Lease

variable {f : Facade World AnyConfig} {h h' : Host World AnyConfig}

/-- Where no connector is to be had, the failure is one of dispatch, or of code that provides connectors. -/
theorem failure_of_acquire {e : Failure} (he : e ∈ Outcome.failure? (acquire f h).1) :
    e.isDispatchFailure = true ∨ f.FailsToProvide h e := by
  have hacquired := acquired f h
  generalize acquire f h = ended at he hacquired
  cases hacquired with
  | noPool b hnumber =>
    obtain ⟨e', rfl, hdispatch⟩ := Host.isDispatchFailure_of_poolFor hnumber
    cases he
    exact .inl hdispatch
  | unbound b hnumber hbind =>
    refine .inr (.own hnumber ?_)
    rw [Facade.construct, hbind]
    exact he
  | constructed config hnumber hbind =>
    refine .inr (.own hnumber ?_)
    rw [Facade.construct, hbind]
    exact (Outcome.failure?_map _ _).symm.trans he
  | borrowed number h₁ hnumber =>
    have hborrow := Host.failure_of_borrow ((Outcome.failure?_map _ _).symm.trans he)
    exact hborrow.imp id fun ⟨c, hc, hmay⟩ => .pooled hnumber hc hmay

theorem eq_some_of_acquire {l : Lease World} (hl : acquire f h = (.ok l, h')) : ∃ held, l = ⟨some held⟩ := by
  have hacquired := acquired f h
  generalize acquire f h = ended at hl hacquired
  cases hacquired with
  | noPool => cases hl
  | unbound => cases hl
  | constructed config =>
    cases hmade : (f.registration.create config h.world).1 with
    | error b => rw [hmade] at hl; cases hl
    | ok connector =>
      rw [hmade] at hl
      cases hl
      exact ⟨_, rfl⟩
  | borrowed number h₁ =>
    cases hmade : (Host.borrow number h₁).1 with
    | error b => rw [hmade] at hl; cases hl
    | ok x =>
      rw [hmade] at hl
      cases hl
      exact ⟨_, rfl⟩

end Lease

namespace Facade

variable {f : Facade World AnyConfig} {h : Host World AnyConfig} {ρ : Type} {r : Request ρ} {e : Failure}

theorem failure_of_not_leases (he : e ∈ r.failure? (f.perform r h).1) (hnot : ¬ f.Leases r.operation h) :
    e.isDispatchFailure = true ∨ f.FailsToProvide h e := by
  rw [perform_eq] at he
  cases ho : f.registration.capabilities.supports r.operation with
  | false =>
    rw [dispatch_of_unsupported ho] at he
    cases (r.failure?_refused _).symm.trans he
    exact .inl rfl
  | true =>
    obtain ⟨⟨outcome, h'⟩, hacquire⟩ : ∃ ended, Lease.acquire f h = ended := ⟨_, rfl⟩
    cases outcome with
    | error b =>
      rw [dispatch_of_error ho hacquire] at he
      refine Lease.failure_of_acquire ?_
      rw [hacquire]
      exact (r.failure?_refused b).symm.trans he
    | ok l =>
      obtain ⟨held, rfl⟩ := Lease.eq_some_of_acquire hacquire
      exact absurd ⟨ho, held, h', hacquire⟩ hnot

theorem reports_of_acquire {held : Held World} {h' : Host World AnyConfig}
    (ho : f.registration.capabilities.supports r.operation = true)
    (hacquire : Lease.acquire f h = (.ok ⟨some held⟩, h')) (hf : held.connector.FailsAtWork)
    (he : e ∈ r.failure? (f.perform r h).1) : Hosted.Reports ⟨f.key, held.connector⟩ r.operation e := by
  rw [perform_eq, dispatch_of_ok ho hacquire] at he
  exact r.reports_on hf h'.world e he

/-- A failure is one of dispatch just if there was no connector, as long as code that provides connectors reports
no other one, no connector at work reports it, and the connector misses no ability that was declared for it. -/
theorem dispatch_failure_iff_not_leased (f : Facade World AnyConfig) (h : Host World AnyConfig) (r : Request ρ)
    (hwork : ∀ held h', Lease.acquire f h = (.ok ⟨some held⟩, h') → held.connector.FailsAtWork)
    (he : e ∈ r.failure? (f.perform r h).1) :
    (¬ f.Leases r.operation h → e.isDispatchFailure = true ∨ f.FailsToProvide h e) ∧
    (∀ held h', f.registration.capabilities.supports r.operation = true →
      Lease.acquire f h = (.ok ⟨some held⟩, h') →
      (e.isDispatchFailure = true ↔
        ∃ o, held.connector.Misses r.operation o ∧ e = .unsupportedOperation o f.key)) ∧
    ((∀ e', f.FailsToProvide h e' → e'.isDispatchFailure = true) →
      (∀ held h', Lease.acquire f h = (.ok ⟨some held⟩, h') → ∀ o, ¬ held.connector.Misses r.operation o) →
      (e.isDispatchFailure = true ↔ ¬ f.Leases r.operation h)) := by
  have hleased : ∀ held h', f.registration.capabilities.supports r.operation = true →
      Lease.acquire f h = (.ok ⟨some held⟩, h') → (e.isDispatchFailure = true ↔
        ∃ o, held.connector.Misses r.operation o ∧ e = .unsupportedOperation o f.key) := by
    intro held h' ho hacquire
    constructor
    · intro hdispatch
      refine (reports_of_acquire ho hacquire (hwork held h' hacquire) he).resolve_left fun hwork => ?_
      exact absurd (hdispatch.symm.trans hwork) (by decide)
    · rintro ⟨o, -, rfl⟩
      rfl
  refine ⟨failure_of_not_leases he, hleased, fun hprovides hmisses => ⟨?_, fun hnot => ?_⟩⟩
  · rintro hdispatch ⟨ho, held, h', hacquire⟩
    obtain ⟨o, hmissed, -⟩ := (hleased held h' ho hacquire).1 hdispatch
    exact hmisses held h' hacquire o hmissed
  · exact (failure_of_not_leases he hnot).elim id (hprovides e)

/-- A connector that is said to be testable, and is not. -/
def boaster : Registration Unit Unit where
  key := default
  capabilities := .ofList [.test]
  bind _ := .ok ()
  create _ := pure Connector.bare

/-- A connector that needs its system to be constructed, and does not reach it. -/
def recluse : Registration Unit Unit where
  key := default
  capabilities := .ofList [.test]
  bind _ := .ok ()
  create _ := Call.fail (.connectionFailed "no route to host" none)

theorem failsAtWork_bare : (Connector.bare : Connector World).FailsAtWork := by
  constructor
  all_goals
    intro w f hf
    cases hf

/-- To test the one fails with a failure of dispatch, although there was a connector; to test the other does
not, although there was none. -/
theorem dispatch_failure_iff_not_leased_misleads :
    let boasting : Facade Unit Unit := ⟨boaster, { connector := default }⟩
    let unreached : Facade Unit Unit := ⟨recluse, { connector := default }⟩
    let h : Host Unit Unit := { world := () }
    let missing : Failure := .unsupportedOperation .test default
    let noRoute : Failure := .connectionFailed "no route to host" none
    (missing ∈ Request.test.failure? (boasting.perform .test h).1 ∧ boasting.Leases .test h ∧
      missing.isDispatchFailure = true ∧ Connector.Misses (Connector.bare : Connector Unit) .test .test) ∧
    (noRoute ∈ Request.test.failure? (unreached.perform .test h).1 ∧ ¬ unreached.Leases .test h ∧
      noRoute.isDispatchFailure = false ∧ unreached.FailsToProvide h noRoute) := by
  intro boasting unreached h missing noRoute
  have hbare : Lease.acquire boasting h = (.ok ⟨some (.own Connector.bare)⟩, h) := rfl
  have hnone : ∀ held h', Lease.acquire unreached h ≠ (.ok ⟨some held⟩, h') := fun held h' hacquire => by
    cases hacquire
  have hwork : ∀ held h', Lease.acquire boasting h = (.ok ⟨some held⟩, h') → held.connector.FailsAtWork := by
    intro held h' hacquire
    cases hbare.symm.trans hacquire
    exact failsAtWork_bare
  have hmissing : missing ∈ Request.test.failure? (boasting.perform .test h).1 := rfl
  have hnoRoute : noRoute ∈ Request.test.failure? (unreached.perform .test h).1 := rfl
  have hnot : ¬ unreached.Leases .test h := fun ⟨_, held, h', hacquire⟩ => hnone held h' hacquire
  obtain ⟨-, hmisses, -⟩ := dispatch_failure_iff_not_leased boasting h .test hwork hmissing
  obtain ⟨hprovides, -, -⟩ := dispatch_failure_iff_not_leased unreached h .test
    (fun held h' hacquire => absurd hacquire (hnone held h')) hnoRoute
  refine ⟨⟨hmissing, ⟨rfl, _, _, hbare⟩, rfl, ?_⟩, hnoRoute, hnot, rfl, ?_⟩
  · obtain ⟨o, hmissed, ho⟩ := (hmisses _ _ rfl hbare).1 rfl
    obtain ⟨rfl, -⟩ := Failure.unsupportedOperation.inj ho
    exact hmissed
  · exact (hprovides hnot).resolve_left (by decide)

end Facade

end Provisioning
