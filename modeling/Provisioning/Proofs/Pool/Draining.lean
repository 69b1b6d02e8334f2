import Provisioning.Memory.Stock
import Provisioning.Proofs.Pool.Contents
import Provisioning.Proofs.Pool.Places

/-! Draining. A pool that is closed hands out nothing and keeps nothing, so what was handed out before is
disposed of as it comes back, and in the end all that the pool ever made is disposed of: `drains_once_closed`.
The pool is followed together with the objects that it made (`Lending`); the places in use are those of the
objects that are out, and every other object is idle or was disposed of (`Lending.Sound`). -/

namespace Provisioning

variable {T α : Type}

structure Lending (T : Type) where
  pool : Pool T
  /-- What was handed out and has not come back. -/
  out : List (Pooled T) := []
  made : List (Pooled T) := []
  /-- All that was disposed of, as often as it was, objects of other pools included. -/
  disposed : List (Pooled T) := []

namespace Lending

def disposedOwn (s : Lending T) : List (Pooled T) := s.disposed.filter fun x => x.id.pool = s.pool.number

/-- After a request with such calls, which left such a pool and so many objects out. -/
def after (s : Lending T) (calls : List (OwnerCall T)) (pool : Pool T) (out : List (Pooled T)) : Lending T :=
  ⟨pool, out, s.made ++ OwnerCall.made calls, s.disposed ++ OwnerCall.disposed calls⟩

/-- One request to the pool. An object that is out may never come back to it, and objects of other pools may
be given to it. -/
inductive Step (s : Lending T) : Lending T → Prop
  | borrow {calls q r} : s.pool.borrow.Ends calls q r → Step s (s.after calls q (Pool.handedOut r ++ s.out))
  | giveBack {first x rest calls q r} (clock : Clock) : s.out = first ++ x :: rest →
      (s.pool.giveBack x clock).Ends calls q r → Step s (s.after calls q (first ++ rest))
  | giveForeign {x calls q r} (clock : Clock) : x.id.pool ≠ s.pool.number →
      (s.pool.giveBack x clock).Ends calls q r → Step s (s.after calls q s.out)
  | trim {calls q r} (clock : Clock) : (s.pool.trim clock).Ends calls q r → Step s (s.after calls q s.out)
  | shutDown {calls q r} : s.pool.shutDown.Ends calls q r → Step s (s.after calls q s.out)

abbrev Reaches : Lending T → Lending T → Prop := Relation.ReflTransGen Step

/-- Every object made is idle, out or was disposed of, once, and the places in use are those of the objects
that are out. -/
structure Sound (s : Lending T) : Prop where
  balanced : Circulation.Balanced ⟨[s.pool], s.out, s.made, s.disposedOwn⟩
  drained : s.pool.Drained
  active : s.pool.active.Perm (s.out.map (·.id))

namespace Sound

variable {s t : Lending T}

theorem issued (hs : s.Sound) : s.pool.Issued := hs.balanced.issued _ List.mem_cons_self

theorem pool_eq_of_mem_out (hs : s.Sound) {x : Pooled T} (hx : x ∈ s.out) : x.id.pool = s.pool.number := by
  have hmem : x ∈ (⟨[s.pool], s.out, s.made, s.disposedOwn⟩ : Circulation T).idle ++ s.out ++ s.disposedOwn :=
    List.mem_append_left _ (List.mem_append_right _ hx)
  simpa using hs.balanced.known x (hs.balanced.balanced.mem_iff.2 hmem)

theorem mem_active (hs : s.Sound) {x : Pooled T} (hx : x ∈ s.out) : x.id ∈ s.pool.active :=
  hs.active.mem_iff.2 (List.mem_map_of_mem hx)

theorem not_mem_active (hs : s.Sound) {x : Pooled T} (hx : x.id.pool ≠ s.pool.number) : x.id ∉ s.pool.active :=
  fun hmem => hx (hs.issued _ (List.mem_append_right _ hmem)).1

/-- The account is kept by a request that leaves those places in use that belong to what is out then. -/
theorem request (hs : s.Sound) {now : Moment} {e : Exchange T α} {g : α → List (Pooled T)}
    {care kept : List (Pooled T)} {calls : List (OwnerCall T)} {q : Pool T} {r : α}
    (hsteps : e.Always (s.pool.Reaches now)) (ha : e.AccountsFor g s.pool.number s.pool.issued care)
    (hcare : (s.pool.stock ++ s.out).Perm (care ++ kept)) (he : e.Ends calls q r)
    (hactive : q.active.Perm ((g r ++ kept).map (·.id))) : (s.after calls q (g r ++ kept)).Sound := by
  have haccounted := ha.of_ends he
  -- What is disposed of was idle or out before, or was made during the request: it is of this pool.
  have hown : ∀ x ∈ OwnerCall.disposed calls, x.id.pool = s.pool.number := by
    intro x hx
    have hmem := haccounted.balanced.mem_iff.2 (List.mem_append_right _ hx)
    rcases List.mem_append.1 hmem with hmem | hmem
    · rcases List.mem_append.1 (hcare.mem_iff.2 (List.mem_append_left _ hmem)) with hidle | hout
      · exact hs.issued.pool_eq hidle
      · exact hs.pool_eq_of_mem_out hout
    · exact (haccounted.fresh x hmem).1
  have hdisposed : (s.after calls q (g r ++ kept)).disposedOwn = s.disposedOwn ++ OwnerCall.disposed calls := by
    have hall : (OwnerCall.disposed calls).filter (fun x => x.id.pool = s.pool.number) = OwnerCall.disposed calls :=
      List.filter_eq_self.2 fun x hx => by simpa using hown x hx
    simp only [disposedOwn, after, haccounted.number_eq, List.filter_append, hall]
  refine ⟨?_, (hsteps.of_ends he).drained hs.drained, hactive⟩
  rw [hdisposed]
  have hbalanced : Circulation.Balanced ⟨[] ++ s.pool :: [], s.out, s.made, s.disposedOwn⟩ := hs.balanced
  exact hbalanced.exchange hsteps hcare ha he

theorem borrow (hs : s.Sound) {calls : List (OwnerCall T)} {q : Pool T} {r : Outcome (Pooled T)}
    (he : s.pool.borrow.Ends calls q r) : (s.after calls q (Pool.handedOut r ++ s.out)).Sound := by
  have huses := (Pool.endsIn_borrow s.pool).of_ends he
  refine hs.request (Pool.always_borrow 0 _) (Pool.accountsFor_borrow _) (.refl _) he ?_
  rw [huses.active, List.map_append]
  exact hs.active.append_left _

theorem giveBack (hs : s.Sound) {first rest : List (Pooled T)} {x : Pooled T} (hout : s.out = first ++ x :: rest)
    (clock : Clock) {calls : List (OwnerCall T)} {q : Pool T} {r : Except Failure Unit}
    (he : (s.pool.giveBack x clock).Ends calls q r) : (s.after calls q (first ++ rest)).Sound := by
  have huses := (Pool.endsIn_giveBack s.pool x clock).of_ends he
  -- The place given up is that of the object that comes back, wherever it stands.
  have hplaces : s.pool.active.Perm (x.id :: (first ++ rest).map (·.id)) := by
    refine hs.active.trans ?_
    rw [hout, ← List.map_cons]
    exact List.perm_middle.map _
  refine hs.request (g := fun _ => []) (Pool.always_giveBack _ x clock) (Pool.accountsFor_giveBack _ x clock)
    ?_ he ?_
  · rw [hout, List.append_assoc]
    exact List.perm_middle.append_left _
  · rw [huses.active]
    simpa using hplaces.erase x.id

theorem giveForeign (hs : s.Sound) {x : Pooled T} (hx : x.id.pool ≠ s.pool.number) (clock : Clock)
    {calls : List (OwnerCall T)} {q : Pool T} {r : Except Failure Unit}
    (he : (s.pool.giveBack x clock).Ends calls q r) : (s.after calls q s.out).Sound := by
  obtain ⟨rfl, rfl, -⟩ := (Pool.ends_giveBack_iff (hs.not_mem_active hx) clock).1 he
  have hdisposed : (s.after [.dispose x] s.pool s.out).disposedOwn = s.disposedOwn := by
    simp [disposedOwn, after, OwnerCall.disposed, hx]
  refine ⟨?_, hs.drained, hs.active⟩
  rw [hdisposed]
  simpa [after, OwnerCall.made] using hs.balanced

theorem trim (hs : s.Sound) (clock : Clock) {calls : List (OwnerCall T)} {q : Pool T} {r : Unit}
    (he : (s.pool.trim clock).Ends calls q r) : (s.after calls q s.out).Sound := by
  refine hs.request (g := fun _ => []) (Pool.always_trim 0 _ clock) (Pool.accountsFor_trim _ clock)
    (.refl _) he ?_
  rw [((Pool.endsIn_trim s.pool clock).of_ends he).active]
  exact hs.active

theorem shutDown (hs : s.Sound) {calls : List (OwnerCall T)} {q : Pool T} {r : Unit}
    (he : s.pool.shutDown.Ends calls q r) : (s.after calls q s.out).Sound := by
  refine hs.request (g := fun _ => []) (Pool.always_shutDown 0 _) (Pool.accountsFor_shutDown _) (.refl _) he ?_
  rw [((Pool.endsIn_shutDown s.pool).of_ends he).2]
  exact hs.active

theorem step (hs : s.Sound) (h : s.Step t) : t.Sound := by
  cases h with
  | borrow he => exact hs.borrow he
  | giveBack clock hout he => exact hs.giveBack hout clock he
  | giveForeign clock hx he => exact hs.giveForeign hx clock he
  | trim clock he => exact hs.trim clock he
  | shutDown he => exact hs.shutDown he

theorem run (hs : s.Sound) (h : s.Reaches t) : t.Sound := by
  induction h with
  | refl => exact hs
  | tail _ hstep ih => exact ih.step hstep

theorem of_create {settings : PoolSettings} {number : Nat} {p : Pool T} (hp : Pool.create settings number = .ok p) :
    Sound { pool := p } := by
  have hempty : (⟨[], [], [], []⟩ : Circulation T).Balanced := Circulation.Run.empty.balanced
  have hbalanced := hempty.create (by simp) hp
  obtain rfl := Pool.eq_of_create hp
  exact ⟨hbalanced, fun _ => rfl, .refl _⟩

theorem disposedOwn_perm (hs : s.Sound) (hout : s.out = []) (hidle : s.pool.idle = []) :
    s.disposedOwn.Perm s.made := by
  have hall := hs.balanced.balanced
  have hnone : (⟨[s.pool], s.out, s.made, s.disposedOwn⟩ : Circulation T).idle = [] := by
    simp [Circulation.idle, Pool.stock, hidle]
  rw [hnone, hout] at hall
  exact hall.symm

end Sound

end Lending

namespace Pool

/-- A closed pool takes steps that free places only. -/
theorem Step.active_le {now : Moment} {p q : Pool T} (hp : p.closed = true) (h : p.Step now q) :
    q.active.length ≤ p.active.length := by
  cases h with
  | take hopen => simp [hp] at hopen
  | reserve hopen => simp [hp] at hopen
  | release id => exact List.erase_sublist.length_le
  | putBack => exact List.erase_sublist.length_le
  | evict => exact Nat.le_refl _
  | close => exact Nat.le_refl _

theorem Reaches.active_le {now : Moment} {p q : Pool T} (hp : p.closed = true) (h : p.Reaches now q) :
    q.active.length ≤ p.active.length := by
  induction h with
  | refl => exact Nat.le_refl _
  | tail hreached hstep ih => exact Nat.le_trans (hstep.active_le (Reaches.closed hp hreached)) ih

section Closed

variable {p q : Pool T} {calls : List (OwnerCall T)}

theorem ends_borrow_iff (hp : p.closed = true) {r : Outcome (Pooled T)} :
    p.borrow.Ends calls q r ↔ calls = [] ∧ q = p ∧ r = .error (.failed .poolClosed) := by
  unfold borrow
  rw [if_pos hp]
  exact Exchange.ends_done_iff

/-- In a closed pool all idle objects are surplus, however few they are. -/
theorem splitSurplus_of_closed (hp : p.closed = true) (clock : Clock) (l : List (IdleEntry T)) :
    p.splitSurplus clock l = (l, []) := by
  induction l generalizing clock with
  | nil => rfl
  | cons oldest rest ih =>
    have hgoes : p.hasSurplus clock.now (oldest :: rest) = true := by simp [hasSurplus, hp]
    rw [splitSurplus, if_pos hgoes, ih]

/-- What a closed pool had handed out is disposed of when it comes back, and its place is free. -/
theorem ends_giveBack_of_closed_iff (hp : p.closed = true) (hidle : p.idle = []) {x : Pooled T} (hx : x.id ∈ p.active)
    (clock : Clock) {r : Except Failure Unit} :
    (p.giveBack x clock).Ends calls q r ↔ calls = [.dispose x] ∧ q = p.release x.id ∧ r = .ok () := by
  have hevict : (p.putBack x clock.now).evict clock.later =
      ([{ x with idleSince := clock.now }], p.release x.id) := by
    have hclosed : (p.putBack x clock.now).closed = true := hp
    rw [evict, splitSurplus_of_closed hclosed]
    simp [putBack, release, hidle]
  unfold giveBack
  rw [if_pos hx, hevict]
  constructor
  · rintro (_ | _ | _ | hdone)
    obtain ⟨rfl, rfl, rfl⟩ := Exchange.ends_done_iff.1 hdone
    exact ⟨rfl, rfl, rfl⟩
  · rintro ⟨rfl, rfl, rfl⟩
    exact .dispose (.done _ _)

theorem active_release {x : EntryId} (hx : x ∈ p.active) :
    (p.release x).statistics.active + 1 = p.statistics.active := by
  have hpos : 0 < p.active.length := List.length_pos_of_mem hx
  have hlen : (p.active.erase x).length = p.active.length - 1 := List.length_erase_of_mem hx
  simp only [statistics, release, hlen]
  omega

theorem ends_shutDown_iff (hp : p.closed = true) (hidle : p.idle = []) {r : Unit} :
    p.shutDown.Ends calls q r ↔ calls = [] ∧ q = p := by
  have hsame : p.close = ([], p) := by
    cases p
    cases hp
    cases hidle
    rfl
  unfold shutDown
  rw [hsame]
  exact Exchange.ends_done_iff.trans (by simp)

end Closed

end Pool

namespace Lending

variable {s t : Lending T}

theorem Step.closed_and_active_le (hs : s.pool.closed = true) (h : s.Step t) :
    t.pool.closed = true ∧ t.pool.statistics.active ≤ s.pool.statistics.active := by
  have of_steps : ∀ {β : Type} {e : Exchange T β} {now calls q r}, e.Always (s.pool.Reaches now) →
      e.Ends calls q r → q.closed = true ∧ q.statistics.active ≤ s.pool.statistics.active :=
    fun hsteps he => ⟨Pool.Reaches.closed hs (hsteps.of_ends he), Pool.Reaches.active_le hs (hsteps.of_ends he)⟩
  cases h with
  | borrow he => exact of_steps (Pool.always_borrow 0 _) he
  | giveBack clock _ he => exact of_steps (Pool.always_giveBack _ _ clock) he
  | giveForeign clock _ he => exact of_steps (Pool.always_giveBack _ _ clock) he
  | trim clock he => exact of_steps (Pool.always_trim 0 _ clock) he
  | shutDown he => exact of_steps (Pool.always_shutDown 0 _) he

theorem Reaches.closed_and_active_le (hs : s.pool.closed = true) (h : s.Reaches t) :
    t.pool.closed = true ∧ t.pool.statistics.active ≤ s.pool.statistics.active := by
  induction h with
  | refl => exact ⟨hs, Nat.le_refl _⟩
  | tail _ hstep ih =>
    have hnext := hstep.closed_and_active_le ih.1
    exact ⟨hnext.1, Nat.le_trans hnext.2 ih.2⟩

/-- A closed pool hands out nothing, disposes at once of what is given back, and takes no more places. Once
nothing is out any more, each object that it made was disposed of, once. -/
theorem drains_once_closed {settings : PoolSettings} {number : Nat} {p : Pool T}
    (hp : Pool.create settings number = .ok p) {opened s : Lending T} (hopened : Reaches { pool := p } opened)
    {closing : List (OwnerCall T)} {closed : Pool T} (hclose : opened.pool.shutDown.Ends closing closed ())
    (hs : Reaches (opened.after closing closed opened.out) s) :
    (∀ calls q r, s.pool.borrow.Ends calls q r ↔ calls = [] ∧ q = s.pool ∧ r = .error (.failed .poolClosed)) ∧
    (∀ x ∈ s.out, ∀ clock : Clock,
      (∀ calls q r, (s.pool.giveBack x clock).Ends calls q r ↔
        calls = [.dispose x] ∧ q = s.pool.release x.id ∧ r = .ok ()) ∧
      (s.pool.release x.id).statistics.active + 1 = s.pool.statistics.active) ∧
    (∀ t, s.Reaches t → t.pool.closed = true ∧ t.pool.statistics.active ≤ s.pool.statistics.active) ∧
    (∀ now q, s.pool.Reaches now q → q.closed = true ∧ q.statistics.active ≤ s.pool.statistics.active) ∧
    (∀ calls q r, s.pool.shutDown.Ends calls q r ↔ calls = [] ∧ q = s.pool) ∧
    (s.out = [] → s.pool.statistics = ⟨0, 0⟩ ∧ s.disposedOwn.Perm s.made ∧ (s.made.map (·.id)).Nodup) := by
  have hsound : s.Sound := (((Sound.of_create hp).run hopened).shutDown hclose).run hs
  have hclosed : s.pool.closed = true :=
    (hs.closed_and_active_le ((Pool.endsIn_shutDown _).of_ends hclose).1).1
  have hidle : s.pool.idle = [] := hsound.drained hclosed
  refine ⟨fun calls q r => Pool.ends_borrow_iff hclosed, fun x hx clock => ?_,
    fun t ht => ht.closed_and_active_le hclosed, fun now q hq => ?_, fun calls q r => ?_, fun hout => ?_⟩
  · have hactive := hsound.mem_active hx
    exact ⟨fun calls q r => Pool.ends_giveBack_of_closed_iff hclosed hidle hactive clock,
      Pool.active_release hactive⟩
  · exact ⟨Pool.Reaches.closed hclosed hq, Pool.Reaches.active_le hclosed hq⟩
  · exact Pool.ends_shutDown_iff hclosed hidle
  · have hactive := hsound.active
    rw [hout, List.map_nil, List.perm_nil] at hactive
    refine ⟨?_, hsound.disposedOwn_perm hout hidle, hsound.balanced.distinct⟩
    rw [Pool.statistics, hidle, hactive]
    rfl

/-- The idle object is disposed of when the pool is closed, although one has to stay idle, and the other
when it comes back. -/
theorem drains_once_closed_two_objects :
    ∃ (p : Pool Int64) (opened s : Lending Int64), Pool.create ⟨2, 2, 1, 0, 0⟩ 0 = .ok p ∧
      Reaches { pool := p } opened ∧ opened.pool.statistics = ⟨1, 1⟩ ∧
      Reaches (opened.after [.dispose ⟨⟨0, 0⟩, 1⟩] opened.pool.close.2 opened.out) s ∧ s.out = [] ∧
      s.pool.statistics = ⟨0, 0⟩ ∧ s.disposedOwn.Perm [⟨⟨0, 0⟩, 1⟩, ⟨⟨0, 1⟩, 2⟩] := by
  let start : Pool Int64 := { settings := ⟨2, 2, 1, 0, 0⟩, number := 0 }
  have hp : Pool.create ⟨2, 2, 1, 0, 0⟩ 0 = .ok start := rfl
  have hfirst : start.borrow.Ends [.make ⟨0, 0⟩ (.ok 1), .test ⟨⟨0, 0⟩, 1⟩ (.ok ())] start.reserve.2
      (.ok ⟨⟨0, 0⟩, 1⟩) := .make (.ok 1) (.test (.ok ()) (.done _ _))
  have hsecond : start.reserve.2.borrow.Ends [.make ⟨0, 1⟩ (.ok 2), .test ⟨⟨0, 1⟩, 2⟩ (.ok ())]
      start.reserve.2.reserve.2 (.ok ⟨⟨0, 1⟩, 2⟩) := .make (.ok 2) (.test (.ok ()) (.done _ _))
  have hback : (start.reserve.2.reserve.2.giveBack ⟨⟨0, 0⟩, 1⟩ (7 : Moment)).Ends []
      (start.reserve.2.reserve.2.putBack ⟨⟨0, 0⟩, 1⟩ 7) (.ok ()) := .done _ _
  have hopened : Reaches { pool := start } _ :=
    ((Relation.ReflTransGen.single (.borrow hfirst)).tail (.borrow hsecond)).tail
      (@Step.giveBack _ _ [⟨⟨0, 1⟩, 2⟩] _ [] _ _ _ (7 : Moment) rfl hback)
  have hclose : (start.reserve.2.reserve.2.putBack ⟨⟨0, 0⟩, 1⟩ 7).shutDown.Ends [.dispose ⟨⟨0, 0⟩, 1⟩]
      (start.reserve.2.reserve.2.putBack ⟨⟨0, 0⟩, 1⟩ 7).close.2 () := .dispose (.done _ _)
  obtain ⟨-, hreturn, -⟩ := drains_once_closed hp hopened hclose .refl
  have hlast := ((hreturn ⟨⟨0, 1⟩, 2⟩ List.mem_cons_self (9 : Moment)).1 _ _ _).2 ⟨rfl, rfl, rfl⟩
  have hs := Relation.ReflTransGen.single (@Step.giveBack _ _ [] _ [] _ _ _ (9 : Moment) rfl hlast)
  obtain ⟨-, -, -, -, -, hend⟩ := drains_once_closed hp hopened hclose hs
  exact ⟨_, _, _, hp, hopened, rfl, hs, rfl, (hend rfl).1, (hend rfl).2.1⟩

end Lending

end Provisioning
