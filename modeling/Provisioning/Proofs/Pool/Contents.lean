import Provisioning.Proofs.Pool.Custody
import Provisioning.Proofs.Pool.Limits

/-! What is in pools. If all objects that an owner makes are of some kind, a pool never holds, tests, gives up
or hands out any other (`Exchange.Handles`); and a pool that is closed holds nothing, and stays closed. -/

namespace Provisioning

variable {T α : Type}

/-- As long as the owner makes objects of a kind, it is asked about such objects only, and only such objects
are idle or handed out in the end. -/
def Exchange.Handles (P : T → Prop) (handedOut : α → List (Pooled T)) : Exchange T α → Prop
  | done p r => ∀ x ∈ p.stock ++ handedOut r, P x.object
  | make _ _ next =>
    (∀ object, P object → (next (.ok object)).Handles P handedOut) ∧ ∀ b, (next (.error b)).Handles P handedOut
  | test _ x next => P x.object ∧ ∀ tested, (next tested).Handles P handedOut
  | dispose _ x next => P x.object ∧ next.Handles P handedOut

namespace Pool

variable {P : T → Prop}

theorem handles_disposeAll {p : Pool T} {r : α} {given : α → List (Pooled T)} {l : List (IdleEntry T)}
    (h : ∀ x ∈ l.map (·.toPooled) ++ (p.stock ++ given r), P x.object) :
    (p.disposeAll r l).Handles P given := by
  induction l with
  | nil => exact h
  | cons e rest ih =>
    exact ⟨h e.toPooled List.mem_cons_self, ih fun x hx => h x (List.mem_cons_of_mem _ hx)⟩

theorem handles_failed {p : Pool T} (hp : ∀ y ∈ p.stock, P y.object) (b : Breakdown) :
    (Exchange.done p (.error b : Outcome (Pooled T))).Handles P handedOut := by
  intro y hy
  have hy' : y ∈ p.stock ++ [] := hy
  rw [List.append_nil] at hy'
  exact hp y hy'

theorem handles_handOut {p : Pool T} {x : Pooled T}
    {otherwise : Pool T → Failure → Exchange T (Outcome (Pooled T))} (hp : ∀ y ∈ p.stock, P y.object)
    (hx : P x.object) (ho : ∀ f, (otherwise (p.release x.id) f).Handles P handedOut) :
    (p.handOut x otherwise).Handles P handedOut := by
  refine ⟨hx, fun tested => ?_⟩
  cases tested with
  | ok u =>
    intro y hy
    rcases List.mem_append.1 hy with hy | hy
    · exact hp y hy
    · exact List.mem_singleton.1 hy ▸ hx
  | error b =>
    cases b with
    | failed f => exact ⟨hx, ho f⟩
    | aborted => exact ⟨hx, handles_failed (p := p.release x.id) hp .aborted⟩

theorem handles_handOutNew {p : Pool T} (hp : ∀ y ∈ p.stock, P y.object) :
    p.handOutNew.Handles P handedOut :=
  ⟨fun _ ho => handles_handOut (p := p.reserve.2) hp ho fun f => handles_failed hp (.failed f),
    fun b => handles_failed hp b⟩

theorem handles_borrowFrom (p : Pool T) {l : List (IdleEntry T)} (hl : ∀ e ∈ l, P e.object) :
    (p.borrowFrom l).Handles P handedOut := by
  induction l with
  | nil =>
    have hempty : ∀ x ∈ ({ p with idle := [] } : Pool T).stock, P x.object :=
      fun x hx => absurd hx List.not_mem_nil
    by_cases hroom : ({ p with idle := [] } : Pool T).hasRoom = true
    · simp only [borrowFrom, hroom, if_true]
      exact handles_handOutNew hempty
    · simp only [borrowFrom, hroom]
      exact handles_failed hempty _
  | cons oldest rest ih =>
    rw [List.forall_mem_cons] at hl
    refine handles_handOut (p := { p with idle := rest, active := oldest.id :: p.active }) ?_ hl.1
      fun _ => ih hl.2
    exact List.forall_mem_map.2 hl.2

theorem handles_borrow {p : Pool T} (hp : ∀ y ∈ p.stock, P y.object) : p.borrow.Handles P handedOut := by
  unfold borrow
  split
  · exact handles_failed hp _
  · exact handles_borrowFrom p fun e he => hp e.toPooled (List.mem_map_of_mem he)

theorem handles_giveBack {p : Pool T} {x : Pooled T} (hp : ∀ y ∈ p.stock, P y.object) (hx : P x.object)
    (clock : Clock) : (p.giveBack x clock).Handles P fun _ => [] := by
  unfold giveBack
  split
  · refine handles_disposeAll (p := ((p.putBack x clock.now).evict clock.later).2) fun y hy => ?_
    have hy' : y ∈ ((p.putBack x clock.now).evict clock.later).1.map (·.toPooled) ++
        (((p.putBack x clock.now).evict clock.later).2.stock ++ []) := hy
    rw [List.append_nil, stock_evict, stock_putBack] at hy'
    rcases List.mem_append.1 hy' with hy | hy
    · exact hp y hy
    · exact List.mem_singleton.1 hy ▸ hx
  · exact ⟨hx, by rw [Exchange.Handles, List.append_nil]; exact hp⟩

theorem handles_shutDown {p : Pool T} (hp : ∀ y ∈ p.stock, P y.object) :
    p.shutDown.Handles P fun _ => [] := by
  refine handles_disposeAll (p := p.close.2) fun y hy => ?_
  have hy' : y ∈ p.stock ++ ([] ++ []) := hy
  rw [List.append_nil, List.append_nil] at hy'
  exact hp y hy'

def Drained (p : Pool T) : Prop := p.closed = true → p.idle = []

theorem drained_evict (p : Pool T) (clock : Clock) : (p.evict clock).2.Drained := by
  obtain ⟨_, h⟩ := p.hasSurplus_kept clock p.idle
  exact (no_surplus h).2

theorem Step.drained {now : Moment} {p q : Pool T} (hp : p.Drained) (h : p.Step now q) : q.Drained := by
  cases h with
  | take hc hi => exact fun hq => absurd hq (by simp [hc])
  | reserve => exact hp
  | release => exact hp
  | putBack clock _ => exact drained_evict _ clock
  | evict clock => exact drained_evict p clock
  | close => exact fun _ => rfl

theorem Reaches.drained {now : Moment} {p q : Pool T} (hp : p.Drained) (h : p.Reaches now q) : q.Drained := by
  induction h with
  | refl => exact hp
  | tail _ hs ih => exact hs.drained ih

end Pool

end Provisioning
