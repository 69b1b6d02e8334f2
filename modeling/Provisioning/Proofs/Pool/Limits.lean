import Mathlib.Data.List.Perm.Basic
import Provisioning.Memory.Stock
import Provisioning.Proofs.Pool.Exchange

/-! A pool keeps within its limits. Handing out an idle object never looks at how many objects there may
be; that there are never too many holds because idle objects and places in use are bounded together, and
every step keeps that bound (`Invariant.step`). So it holds in every run, between the requests and at
every call to the owner: `limits_of_run`. -/

namespace Provisioning.Pool

variable {T : Type}

/-- What a pool with some settings never exceeds or mixes up. -/
structure WithinLimits (settings : PoolSettings) (p : Pool T) : Prop where
  total : p.statistics.active + p.statistics.idle ≤ settings.maxObjects.toNat
  idle : p.statistics.idle ≤ settings.maxIdle.toNat
  distinct : p.places.Nodup
  ordered : p.idle.Pairwise fun a b => a.idleSince ≤ b.idleSince
  drained : p.closed = true → p.idle = []

/-- What holds even in the middle of a step, while there may be too many idle objects. -/
structure Orderly (settings : PoolSettings) (now : Moment) (p : Pool T) : Prop where
  settings_eq : p.settings = settings
  total : p.active.length + p.idle.length ≤ settings.maxObjects.toNat
  distinct : p.places.Nodup
  ordered : p.idle.Pairwise fun a b => a.idleSince ≤ b.idleSince
  past : ∀ e ∈ p.idle, e.idleSince ≤ now

structure Invariant (settings : PoolSettings) (now : Moment) (p : Pool T) : Prop
    extends Orderly settings now p where
  issued : p.Issued
  idle : p.idle.length ≤ settings.maxIdle.toNat
  drained : p.closed = true → p.idle = []

theorem Invariant.withinLimits {settings : PoolSettings} {now : Moment} {p : Pool T}
    (h : Invariant settings now p) : WithinLimits settings p :=
  ⟨h.total, h.idle, h.distinct, h.ordered, h.drained⟩

/-- No step opens a pool again. -/
theorem Step.closed {now : Moment} {p q : Pool T} (hp : p.closed = true) (h : p.Step now q) :
    q.closed = true := by
  cases h with
  | close => rfl
  | _ => exact hp

theorem Reaches.closed {now : Moment} {p q : Pool T} (hp : p.closed = true) (h : p.Reaches now q) :
    q.closed = true := by
  induction h with
  | refl => exact hp
  | tail _ hs ih => exact hs.closed ih

/-! Eviction takes from the front of the idle objects until none of them has to go. -/

theorem hasSurplus_kept (p : Pool T) (clock : Clock) (l : List (IdleEntry T)) :
    ∃ now, p.hasSurplus now (p.splitSurplus clock l).2 = false := by
  induction l generalizing clock with
  | nil => exact ⟨clock.now, rfl⟩
  | cons oldest rest ih =>
    unfold splitSurplus
    split
    · exact ih clock.later
    · next h => exact ⟨clock.now, by simpa using h⟩

theorem no_surplus {p : Pool T} {now : Moment} {l : List (IdleEntry T)} (h : p.hasSurplus now l = false) :
    l.length ≤ p.settings.maxIdle.toNat ∧ (p.closed = true → l = []) := by
  cases l with
  | nil => exact ⟨Nat.zero_le _, fun _ => rfl⟩
  | cons oldest rest =>
    simp only [hasSurplus, Bool.or_eq_false_iff, decide_eq_false_iff_not] at h
    exact ⟨Nat.le_of_not_lt h.1.2, fun hc => absurd hc (by simp [h.1.1])⟩

namespace Orderly

variable {settings : PoolSettings} {now : Moment} {p : Pool T}

/-- To leave out idle objects and places does no harm, and it is of no concern whether the pool is closed. -/
theorem sublist (h : Orderly settings now p) {idle : List (IdleEntry T)} {active : List EntryId}
    {closed : Bool} (hi : idle.Sublist p.idle) (ha : active.Sublist p.active) :
    Orderly settings now { p with idle, active, closed } where
  settings_eq := h.settings_eq
  total := by
    have := h.total
    have := hi.length_le
    have := ha.length_le
    simp only
    omega
  distinct := h.distinct.sublist ((hi.map _).append ha)
  ordered := h.ordered.sublist hi
  past e he := h.past e (hi.subset he)

theorem evict (h : Orderly settings now p) (clock : Clock) (hq : (p.evict clock).2.Issued) :
    Invariant settings now (p.evict clock).2 := by
  obtain ⟨t, ht⟩ := p.hasSurplus_kept clock p.idle
  obtain ⟨hlen, hclosed⟩ := no_surplus ht
  exact ⟨h.sublist (p.evict_sublist clock) (List.Sublist.refl _), hq, h.settings_eq ▸ hlen, hclosed⟩

theorem putBack (h : Orderly settings now p) {t : Moment} (ht : now ≤ t) {x : Pooled T}
    (hx : x.id ∈ p.active) : Orderly settings t (p.putBack x t) := by
  refine ⟨h.settings_eq, ?_, (places_putBack hx t).nodup_iff.2 h.distinct, ?_, ?_⟩
  · have hlen : (p.active.erase x.id).length = p.active.length - 1 := List.length_erase_of_mem hx
    have hpos : 0 < p.active.length := List.length_pos_of_mem hx
    have htotal := h.total
    simp only [Pool.putBack, release, List.length_append, List.length_singleton, hlen]
    omega
  · refine List.pairwise_append.2 ⟨h.ordered, List.pairwise_singleton _ _, fun a ha b hb => ?_⟩
    rw [List.mem_singleton] at hb
    rw [hb]
    exact Nat.le_trans (h.past a ha) ht
  · intro e he
    rcases List.mem_append.1 he with he | he
    · exact Nat.le_trans (h.past e he) ht
    · rw [List.mem_singleton] at he
      exact he ▸ Nat.le_refl t

theorem later (h : Orderly settings now p) {t : Moment} (ht : now ≤ t) : Orderly settings t p :=
  { h with past := fun e he => Nat.le_trans (h.past e he) ht }

end Orderly

namespace Invariant

variable {settings : PoolSettings} {now : Moment} {p q : Pool T}

theorem later (h : Invariant settings now p) {t : Moment} (ht : now ≤ t) : Invariant settings t p :=
  { h with toOrderly := h.toOrderly.later ht }

theorem of_create {number : Nat} (h : create settings number = .ok p) : Invariant settings now p := by
  have hissued := Issued.of_create h
  rw [eq_of_create h] at hissued ⊢
  exact ⟨⟨rfl, Nat.zero_le _, List.nodup_nil, List.Pairwise.nil, by simp⟩, hissued, Nat.zero_le _, fun _ => rfl⟩

theorem take {oldest : IdleEntry T} {rest : List (IdleEntry T)} (h : Invariant settings now p)
    (hc : p.closed = false) (hi : p.idle = oldest :: rest)
    (hq : ({ p with idle := rest, active := oldest.id :: p.active } : Pool T).Issued) :
    Invariant settings now { p with idle := rest, active := oldest.id :: p.active } := by
  have hsub : rest.Sublist p.idle := by rw [hi]; exact List.sublist_cons_self _ _
  have htotal := h.total
  have hidle := h.idle
  rw [hi, List.length_cons] at htotal hidle
  refine ⟨⟨h.settings_eq, ?_, (places_take hi).nodup_iff.2 h.distinct, h.ordered.sublist hsub,
    fun e he => h.past e (hsub.subset he)⟩, hq, ?_, fun he => ?_⟩
  · simp only [List.length_cons]
    omega
  · simp only
    omega
  · simp only [hc, Bool.false_eq_true] at he

/-- Only here the bound on all objects is looked at, and nothing is idle then. -/
theorem reserve (h : Invariant settings now p) (hi : p.idle = []) (hr : p.hasRoom = true)
    (hq : p.reserve.2.Issued) : Invariant settings now p.reserve.2 := by
  have hplaces : p.reserve.2.places = ⟨p.number, p.issued⟩ :: p.places := by
    simp [places, Pool.reserve, hi]
  have hfresh : (⟨p.number, p.issued⟩ : EntryId) ∉ p.places := fun hm =>
    Nat.lt_irrefl _ (h.issued _ hm).2
  have hroom : p.active.length < settings.maxObjects.toNat := by
    rw [← h.settings_eq]
    simpa [hasRoom] using hr
  refine ⟨⟨h.settings_eq, ?_, ?_, h.ordered, h.past⟩, hq, h.idle, h.drained⟩
  · simp only [Pool.reserve, hi, List.length_cons, List.length_nil]
    omega
  · rw [hplaces]
    exact List.nodup_cons.2 ⟨hfresh, h.distinct⟩

theorem step (h : Invariant settings now p) {t : Moment} (ht : now ≤ t) (hs : p.Step t q) :
    Invariant settings t q := by
  have h' := h.later ht
  have hq := h.issued.step hs
  cases hs with
  | take hc hi => exact h'.take hc hi hq
  | reserve _ hi hr => exact h'.reserve hi hr hq
  | release id =>
    exact ⟨h'.sublist (List.Sublist.refl _) List.erase_sublist, hq, h'.idle, h'.drained⟩
  | putBack clock hx => exact (h.putBack ht hx).evict clock hq
  | evict clock => exact h'.evict clock hq
  | close =>
    exact ⟨h'.sublist (List.nil_sublist _) (List.Sublist.refl _), hq, Nat.zero_le _, fun _ => rfl⟩

theorem reaches (h : Invariant settings now p) {t : Moment} (ht : now ≤ t) (hr : p.Reaches t q) :
    Invariant settings t q := by
  induction hr with
  | refl => exact h.later ht
  | tail _ hs ih => exact ih.step (Nat.le_refl t) hs

theorem always {α : Type} {e : Exchange T α} (h : Invariant settings now p) {t : Moment} (ht : now ≤ t)
    (he : e.Always (p.Reaches t)) : e.Always (Invariant settings t) :=
  he.mono fun _ hq => h.reaches ht hq

end Invariant

variable {settings : PoolSettings} {number : Nat} {now : Moment} {p : Pool T}

theorem Run.invariant (h : Run settings number p now) : Invariant settings now p := by
  induction h with
  | create now hp => exact .of_create hp
  | @borrow p now _ _ _ _ he ih => exact (ih.always (Nat.le_refl now) (always_borrow now p)).of_ends he
  | @giveBack p _ _ _ _ x clock _ ht he ih => exact (ih.always ht (always_giveBack p x clock)).of_ends he
  | @trim p _ _ _ _ clock _ ht he ih => exact (ih.always ht (always_trim clock.now p clock)).of_ends he
  | @shutDown p now _ _ _ _ he ih => exact (ih.always (Nat.le_refl now) (always_shutDown now p)).of_ends he
  | meanwhile _ ht hs ih => exact ih.step ht hs

/-- What becomes of a pool at the calls to its owner: it is within its limits, and closed if it was. -/
structure Remains (settings : PoolSettings) (p q : Pool T) : Prop extends WithinLimits settings q where
  closed : p.closed = true → q.closed = true

/-- A pool is within its limits after every run, and in every further request at each call to its owner; once it
is shut down it stays closed. -/
theorem limits_of_run (h : Run settings number p now) :
    WithinLimits settings p ∧
    p.borrow.Always (Remains settings p) ∧
    (∀ x (clock : Clock), now ≤ clock.now → (p.giveBack x clock).Always (Remains settings p)) ∧
    (∀ clock : Clock, now ≤ clock.now → (p.trim clock).Always (Remains settings p)) ∧
    p.shutDown.Always fun q => WithinLimits settings q ∧ q.closed = true := by
  have hi := h.invariant
  have remains : ∀ {α : Type} {e : Exchange T α} {t : Moment}, now ≤ t → e.Always (p.Reaches t) →
      e.Always (Remains settings p) :=
    fun ht he => he.mono fun _ hq => ⟨(hi.reaches ht hq).withinLimits, fun hclosed => hq.closed hclosed⟩
  have hclose : Invariant settings now p.close.2 := hi.step (Nat.le_refl now) (.close p)
  exact ⟨hi.withinLimits, remains (Nat.le_refl now) (always_borrow now p),
    fun x clock ht => remains ht (always_giveBack p x clock),
    fun clock ht => remains ht (always_trim clock.now p clock),
    always_disposeAll ⟨hclose.withinLimits, rfl⟩ () p.close.1⟩

/-- Of two objects, which are all there may be, one comes back and is given up when the pool is shut down; the
other comes back later. -/
theorem limits_of_run_two_objects :
    ∃ p q : Pool Int64, Run ⟨2, 1, 0, 0, 0⟩ 0 p 7 ∧ p.statistics = ⟨1, 1⟩ ∧
      p.shutDown.Always (fun q => WithinLimits ⟨2, 1, 0, 0, 0⟩ q ∧ q.closed = true) ∧
      Run ⟨2, 1, 0, 0, 0⟩ 0 q 7 ∧ q.statistics = ⟨0, 1⟩ ∧ q.closed = true ∧ WithinLimits ⟨2, 1, 0, 0, 0⟩ q ∧
      (q.giveBack ⟨⟨0, 1⟩, 2⟩ (9 : Moment)).Always (Remains ⟨2, 1, 0, 0, 0⟩ q) := by
  have h0 : Run ⟨2, 1, 0, 0, 0⟩ 0 (⟨⟨2, 1, 0, 0, 0⟩, 0, [], [], false, 0⟩ : Pool Int64) 5 := .create 5 rfl
  obtain ⟨_, e1⟩ := Exchange.ends_run Memory.Stock.owner
    (⟨⟨2, 1, 0, 0, 0⟩, 0, [], [], false, 0⟩ : Pool Int64).borrow {}
  have h1 := Run.borrow h0 e1
  obtain ⟨_, e2⟩ := Exchange.ends_run Memory.Stock.owner (Pool.borrow _) {}
  have h2 := Run.borrow h1 e2
  obtain ⟨_, e3⟩ := Exchange.ends_run Memory.Stock.owner (Pool.giveBack _ ⟨⟨0, 0⟩, 1⟩ (7 : Moment)) {}
  have h3 := Run.giveBack ⟨⟨0, 0⟩, 1⟩ (7 : Moment) h2 (by decide) e3
  obtain ⟨-, -, -, -, hshut⟩ := limits_of_run h3
  obtain ⟨_, e4⟩ := Exchange.ends_run Memory.Stock.owner (Pool.shutDown _) {}
  have h4 := Run.shutDown h3 e4
  obtain ⟨hw, -, hback, -, -⟩ := limits_of_run h4
  exact ⟨_, _, h3, rfl, hshut, h4, rfl, rfl, hw, hback ⟨⟨0, 1⟩, 2⟩ (9 : Moment) (by decide)⟩

end Provisioning.Pool
