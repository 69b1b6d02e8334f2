import Provisioning.Proofs.Pool.Custody

/-! Places in use. Whatever its owner answers, a request to a pool takes a place for what it hands out and frees
the place of what it takes back, those apart leaves the places in use as they were, and never opens or closes the
pool unless it was asked to. -/

namespace Provisioning

variable {T α World : Type}

/-- Whatever the owner answers, the exchange ends with such a pool and such a result. -/
def Exchange.EndsIn (P : Pool T → α → Prop) : Exchange T α → Prop
  | done p r => P p r
  | make _ _ next => ∀ made, (next made).EndsIn P
  | test _ _ next => ∀ tested, (next tested).EndsIn P
  | dispose _ _ next => next.EndsIn P

theorem Exchange.EndsIn.mono {P Q : Pool T → α → Prop} {e : Exchange T α} (he : e.EndsIn P)
    (h : ∀ q r, P q r → Q q r) : e.EndsIn Q := by
  induction e with
  | done p r => exact h p r he
  | make p id next ih => exact fun made => ih made (he made)
  | test p x next ih => exact fun tested => ih tested (he tested)
  | dispose p x next ih => exact ih he

theorem Exchange.EndsIn.of_ends {P : Pool T → α → Prop} {e : Exchange T α} (he : e.EndsIn P)
    {calls : List (OwnerCall T)} {q : Pool T} {r : α} (h : e.Ends calls q r) : P q r := by
  induction h with
  | done p r => exact he
  | make made _ ih => exact ih (he made)
  | test tested _ ih => exact ih (he tested)
  | dispose _ ih => exact ih he

theorem Exchange.EndsIn.run {P : Pool T → α → Prop} {e : Exchange T α} (he : e.EndsIn P)
    {owner : PoolOwner World T} {w w' : World} {q : Pool T} {r : α} (hrun : e.run owner w = ((q, r), w')) :
    P q r := by
  obtain ⟨calls, hends⟩ := e.ends_run owner w
  rw [hrun] at hends
  exact he.of_ends hends

namespace Pool

/-- The pool is as open as another one, and its places in use are these. -/
structure Uses (places : List EntryId) (p q : Pool T) : Prop where
  closed : q.closed = p.closed
  active : q.active = places

theorem endsIn_disposeAll {P : Pool T → α → Prop} {p : Pool T} {r : α} (h : P p r) (l : List (IdleEntry T)) :
    (p.disposeAll r l).EndsIn P := by
  induction l with
  | nil => exact h
  | cons e rest ih => exact ih

theorem endsIn_handOut {P : Pool T → Outcome (Pooled T) → Prop} {p : Pool T} {x : Pooled T}
    {otherwise : Pool T → Failure → Exchange T (Outcome (Pooled T))} (hok : P p (.ok x))
    (haborted : P (p.release x.id) (.error .aborted))
    (ho : ∀ f, (otherwise (p.release x.id) f).EndsIn P) : (p.handOut x otherwise).EndsIn P := by
  intro tested
  cases tested with
  | ok u => exact hok
  | error b =>
    cases b with
    | failed f => exact ho f
    | aborted => exact haborted

/-- What a request for an object may end in: a place is in use for the object, if there is one. -/
def Lends (start q : Pool T) (outcome : Outcome (Pooled T)) : Prop :=
  Uses ((handedOut outcome).map (·.id) ++ start.active) start q

theorem endsIn_handOutNew {start p : Pool T} (h : Uses start.active start p) :
    p.handOutNew.EndsIn (Lends start) := by
  have hfreed : Uses start.active start (p.reserve.2.release p.reserve.1) :=
    ⟨h.closed, (List.erase_cons_head _ _).trans h.active⟩
  intro made
  cases made with
  | error b => exact hfreed
  | ok object =>
    refine endsIn_handOut ⟨h.closed, ?_⟩ hfreed fun _ => hfreed
    exact congrArg (p.reserve.1 :: ·) h.active

theorem endsIn_borrowFrom (p : Pool T) (l : List (IdleEntry T)) : (p.borrowFrom l).EndsIn (Lends p) := by
  induction l with
  | nil =>
    have hsame : Uses p.active p ({ p with idle := [] } : Pool T) := ⟨rfl, rfl⟩
    by_cases hroom : ({ p with idle := [] } : Pool T).hasRoom = true
    · simp only [borrowFrom, hroom, if_true]
      exact endsIn_handOutNew hsame
    · simp only [borrowFrom, hroom]
      exact hsame
  | cons oldest rest ih =>
    refine endsIn_handOut ⟨rfl, rfl⟩ ?_ fun _ => ih
    rw [release_take]
    exact ⟨rfl, rfl⟩

theorem endsIn_borrow (p : Pool T) : p.borrow.EndsIn (Lends p) := by
  unfold borrow
  split
  · exact ⟨rfl, rfl⟩
  · exact endsIn_borrowFrom p p.idle

theorem endsIn_giveBack (p : Pool T) (x : Pooled T) (clock : Clock) :
    (p.giveBack x clock).EndsIn fun q _ => Uses (p.active.erase x.id) p q := by
  unfold giveBack
  split
  · exact endsIn_disposeAll ⟨rfl, rfl⟩ _
  · next hx => exact ⟨rfl, (List.erase_of_not_mem hx).symm⟩

theorem endsIn_trim (p : Pool T) (clock : Clock) : (p.trim clock).EndsIn fun q _ => Uses p.active p q :=
  endsIn_disposeAll (P := fun q (_ : Unit) => Uses p.active p q) (p := (p.evict clock).2) ⟨rfl, rfl⟩ _

theorem endsIn_shutDown (p : Pool T) :
    p.shutDown.EndsIn fun q _ => q.closed = true ∧ q.active = p.active :=
  endsIn_disposeAll (P := fun q (_ : Unit) => q.closed = true ∧ q.active = p.active) (p := p.close.2) ⟨rfl, rfl⟩ _

end Pool

end Provisioning
