import Mathlib.Data.List.Nodup
import Provisioning.Memory.Stock
import Provisioning.Proofs.Pool.Exchange

/-! Where pooled objects are. An exchange accounts for the objects in its care: those idle in its pool, one
that is given back, those it has made. At its end each of them is idle or handed out, or was disposed of
once (`AccountsFor.of_ends`). Over any run of requests to any pools no object is lost, shared or disposed
of twice: `Circulation.everything_in_one_place`. -/

namespace Provisioning

variable {T α : Type}

namespace OwnerCall

def made (calls : List (OwnerCall T)) : List (Pooled T) :=
  calls.filterMap fun
    | make id (.ok object) => some ⟨id, object⟩
    | _ => none

def disposed (calls : List (OwnerCall T)) : List (Pooled T) :=
  calls.filterMap fun
    | dispose x => some x
    | _ => none

end OwnerCall

namespace Pool

def stock (p : Pool T) : List (Pooled T) := p.idle.map (·.toPooled)

theorem Issued.pool_eq {p : Pool T} (h : p.Issued) {x : Pooled T} (hx : x ∈ p.stock) : x.id.pool = p.number := by
  obtain ⟨e, he, rfl⟩ := List.mem_map.1 hx
  exact (h e.id (List.mem_append_left _ (List.mem_map_of_mem he))).1

end Pool

namespace Exchange

/-- The exchange disposes only of objects in its care, to which it adds those it makes, and ends with the rest
idle or handed out. -/
def AccountsFor (handedOut : α → List (Pooled T)) (number : Nat) :
    Exchange T α → (issued : Nat) → (care : List (Pooled T)) → Prop
  | done p r, issued, care => p.number = number ∧ p.issued = issued ∧ care.Perm (p.stock ++ handedOut r)
  | make _ id next, issued, care =>
    id = ⟨number, issued⟩ ∧
      (∀ object, (next (.ok object)).AccountsFor handedOut number (issued + 1) (⟨id, object⟩ :: care)) ∧
      ∀ b, (next (.error b)).AccountsFor handedOut number (issued + 1) care
  | test _ _ next, issued, care => ∀ tested, (next tested).AccountsFor handedOut number issued care
  | dispose _ x next, issued, care =>
    ∃ rest, care.Perm (x :: rest) ∧ next.AccountsFor handedOut number issued rest

/-- What became of the objects in the care of an exchange and of those it made. -/
structure Accounted (number issued : Nat) (care made disposed : List (Pooled T)) (q : Pool T)
    (given : List (Pooled T)) : Prop where
  number_eq : q.number = number
  issued_le : issued ≤ q.issued
  fresh : ∀ x ∈ made, x.id.pool = number ∧ issued ≤ x.id.serial ∧ x.id.serial < q.issued
  distinct : (made.map (·.id)).Nodup
  balanced : (care ++ made).Perm (q.stock ++ given ++ disposed)

namespace Accounted

variable {number issued : Nat} {care made disposed given : List (Pooled T)} {q : Pool T}

theorem of_failed (h : Accounted number (issued + 1) care made disposed q given) :
    Accounted number issued care made disposed q given :=
  { h with
    issued_le := Nat.le_of_succ_le h.issued_le
    fresh := fun x hx => ⟨(h.fresh x hx).1, Nat.le_of_succ_le (h.fresh x hx).2.1, (h.fresh x hx).2.2⟩ }

theorem of_made {object : T}
    (h : Accounted number (issued + 1) (⟨⟨number, issued⟩, object⟩ :: care) made disposed q given) :
    Accounted number issued care (⟨⟨number, issued⟩, object⟩ :: made) disposed q given where
  number_eq := h.number_eq
  issued_le := Nat.le_of_succ_le h.issued_le
  fresh x hx := by
    rcases List.mem_cons.1 hx with rfl | hx
    · exact ⟨rfl, Nat.le_refl _, h.issued_le⟩
    · have hf := h.fresh x hx
      exact ⟨hf.1, Nat.le_of_succ_le hf.2.1, hf.2.2⟩
  distinct := by
    refine List.nodup_cons.2 ⟨fun hm => ?_, h.distinct⟩
    obtain ⟨x, hx, hid⟩ := List.mem_map.1 hm
    have hs : issued + 1 ≤ x.id.serial := (h.fresh x hx).2.1
    rw [hid] at hs
    exact Nat.lt_irrefl _ hs
  balanced := List.perm_middle.trans h.balanced

theorem of_disposed {x : Pooled T} {rest : List (Pooled T)} (hperm : care.Perm (x :: rest))
    (h : Accounted number issued rest made disposed q given) :
    Accounted number issued care made (x :: disposed) q given :=
  { h with
    balanced := calc
      (care ++ made).Perm (x :: (rest ++ made)) := hperm.append_right _
      List.Perm _ (x :: (q.stock ++ given ++ disposed)) := h.balanced.cons x
      List.Perm _ (q.stock ++ given ++ x :: disposed) := List.perm_middle.symm }

end Accounted

theorem AccountsFor.of_ends {handedOut : α → List (Pooled T)} {number issued : Nat}
    {care : List (Pooled T)} {e : Exchange T α} {calls : List (OwnerCall T)} {q : Pool T} {r : α}
    (h : e.AccountsFor handedOut number issued care) (he : e.Ends calls q r) :
    Accounted number issued care (OwnerCall.made calls) (OwnerCall.disposed calls) q (handedOut r) := by
  induction he generalizing issued care with
  | done p r =>
    obtain ⟨rfl, rfl, hperm⟩ := h
    refine ⟨rfl, Nat.le_refl _, fun x hx => absurd hx List.not_mem_nil, List.nodup_nil, ?_⟩
    simpa [OwnerCall.made, OwnerCall.disposed] using hperm
  | make made _ ih =>
    obtain ⟨rfl, hok, herror⟩ := h
    -- the place is used up even if nothing was made for it
    cases made with
    | ok object => exact (ih (hok object)).of_made
    | error b => exact (ih (herror b)).of_failed
  | test tested _ ih => exact ih (h tested)
  | dispose _ ih =>
    obtain ⟨rest, hperm, hnext⟩ := h
    exact (ih hnext).of_disposed hperm

end Exchange

namespace Pool

def handedOut : Outcome (Pooled T) → List (Pooled T)
  | .ok x => [x]
  | .error _ => []

theorem accountsFor_disposeAll (p : Pool T) (r : α) (given : α → List (Pooled T))
    (l : List (IdleEntry T)) :
    (p.disposeAll r l).AccountsFor given p.number p.issued (l.map (·.toPooled) ++ (p.stock ++ given r)) := by
  induction l with
  | nil => exact ⟨rfl, rfl, .refl _⟩
  | cons e rest ih => exact ⟨_, .refl _, ih⟩

theorem accountsFor_handOut {p : Pool T} {x : Pooled T}
    {otherwise : Pool T → Failure → Exchange T (Outcome (Pooled T))}
    (ho : ∀ f, (otherwise (p.release x.id) f).AccountsFor handedOut p.number p.issued p.stock) :
    (p.handOut x otherwise).AccountsFor handedOut p.number p.issued (x :: p.stock) := by
  intro tested
  cases tested with
  | ok u => exact ⟨rfl, rfl, (List.perm_append_singleton x p.stock).symm⟩
  | error b =>
    cases b with
    | failed f => exact ⟨p.stock, .refl _, ho f⟩
    | aborted => exact ⟨p.stock, .refl _, rfl, rfl, .of_eq (List.append_nil _).symm⟩

theorem accountsFor_handOutNew (p : Pool T) :
    p.handOutNew.AccountsFor handedOut p.number p.issued p.stock := by
  refine ⟨rfl, fun object => ?_, fun b => ⟨rfl, rfl, .of_eq (List.append_nil _).symm⟩⟩
  exact accountsFor_handOut (p := p.reserve.2) fun f => ⟨rfl, rfl, .of_eq (List.append_nil _).symm⟩

theorem accountsFor_borrowFrom (p : Pool T) (l : List (IdleEntry T)) :
    (p.borrowFrom l).AccountsFor handedOut p.number p.issued (l.map (·.toPooled)) := by
  induction l with
  | nil =>
    by_cases hroom : ({ p with idle := [] } : Pool T).hasRoom = true
    · simp only [borrowFrom, hroom, if_true]
      exact accountsFor_handOutNew ({ p with idle := [] } : Pool T)
    · simp only [borrowFrom, hroom]
      exact ⟨rfl, rfl, .refl _⟩
  | cons oldest rest ih =>
    exact accountsFor_handOut (p := { p with idle := rest, active := oldest.id :: p.active }) fun _ => ih

theorem accountsFor_borrow (p : Pool T) : p.borrow.AccountsFor handedOut p.number p.issued p.stock := by
  unfold borrow
  split
  · exact ⟨rfl, rfl, .of_eq (List.append_nil _).symm⟩
  · exact accountsFor_borrowFrom p p.idle

theorem stock_evict (p : Pool T) (clock : Clock) :
    (p.evict clock).1.map (·.toPooled) ++ (p.evict clock).2.stock = p.stock := by
  unfold stock
  rw [← List.map_append]
  exact congrArg _ (p.splitSurplus_append clock p.idle)

theorem stock_putBack (p : Pool T) (x : Pooled T) (now : Moment) :
    (p.putBack x now).stock = p.stock ++ [x] := by
  unfold stock putBack
  rw [List.map_append]
  rfl

theorem accountsFor_trim (p : Pool T) (clock : Clock) :
    (p.trim clock).AccountsFor (fun _ => []) p.number p.issued p.stock := by
  have h := accountsFor_disposeAll (p.evict clock).2 () (fun _ => []) (p.evict clock).1
  rwa [List.append_nil, stock_evict] at h

theorem accountsFor_shutDown (p : Pool T) :
    p.shutDown.AccountsFor (fun _ => []) p.number p.issued p.stock := by
  have h := accountsFor_disposeAll p.close.2 () (fun _ => []) p.close.1
  rwa [List.append_nil, show p.close.2.stock = [] from rfl, List.append_nil] at h

/-- An object that comes back is idle or disposed of afterwards, wherever it comes from. -/
theorem accountsFor_giveBack (p : Pool T) (x : Pooled T) (clock : Clock) :
    (p.giveBack x clock).AccountsFor (fun _ => []) p.number p.issued (p.stock ++ [x]) := by
  unfold giveBack
  split
  · have h := accountsFor_disposeAll ((p.putBack x clock.now).evict clock.later).2
      (Except.ok () : Except Failure Unit) (fun _ => [])
      ((p.putBack x clock.now).evict clock.later).1
    rw [List.append_nil, stock_evict, stock_putBack] at h
    exact h
  · exact ⟨p.stock, List.perm_append_singleton x p.stock, rfl, rfl, .of_eq (List.append_nil _).symm⟩

theorem ends_giveBack_iff {p : Pool T} {x : Pooled T} (hx : x.id ∉ p.active) (clock : Clock)
    {calls : List (OwnerCall T)} {q : Pool T} {r : Except Failure Unit} :
    (p.giveBack x clock).Ends calls q r ↔
      calls = [.dispose x] ∧ q = p ∧ r = .error (.illegalState (.notActive x.id)) := by
  unfold giveBack
  rw [if_neg hx]
  constructor
  · rintro (_ | _ | _ | ⟨⟨⟩⟩)
    exact ⟨rfl, rfl, rfl⟩
  · rintro ⟨rfl, rfl, rfl⟩
    exact .dispose (.done _ _)

end Pool

/-- Pools, and where the objects made for them are. -/
structure Circulation (T : Type) where
  pools : List (Pool T) := []
  /-- What callers hold, once for each handle on it. -/
  held : List (Pooled T) := []
  made : List (Pooled T) := []
  /-- What was disposed of, as often as it was. -/
  disposed : List (Pooled T) := []

namespace Circulation

def idle (s : Circulation T) : List (Pooled T) := s.pools.flatMap Pool.stock

/-- Callers give back what they hold, to whatever pool they like; the places of different pools are different. -/
inductive Run : Circulation T → Prop
  | empty : Run {}
  | create {s settings number p} : Run s → (∀ q ∈ s.pools, q.number ≠ number) →
      Pool.create settings number = .ok p → Run { s with pools := p :: s.pools }
  | borrow {before p after held made disposed calls q r} :
      Run ⟨before ++ p :: after, held, made, disposed⟩ → p.borrow.Ends calls q r →
      Run ⟨before ++ q :: after, Pool.handedOut r ++ held, made ++ OwnerCall.made calls,
        disposed ++ OwnerCall.disposed calls⟩
  | giveBack {before p after first x rest made disposed calls q r} (clock : Clock) :
      Run ⟨before ++ p :: after, first ++ x :: rest, made, disposed⟩ → (p.giveBack x clock).Ends calls q r →
      Run ⟨before ++ q :: after, first ++ rest, made ++ OwnerCall.made calls,
        disposed ++ OwnerCall.disposed calls⟩
  | trim {before p after held made disposed calls q r} (clock : Clock) :
      Run ⟨before ++ p :: after, held, made, disposed⟩ → (p.trim clock).Ends calls q r →
      Run ⟨before ++ q :: after, held, made ++ OwnerCall.made calls, disposed ++ OwnerCall.disposed calls⟩
  | shutDown {before p after held made disposed calls q r} :
      Run ⟨before ++ p :: after, held, made, disposed⟩ → p.shutDown.Ends calls q r →
      Run ⟨before ++ q :: after, held, made ++ OwnerCall.made calls, disposed ++ OwnerCall.disposed calls⟩

structure Balanced (s : Circulation T) : Prop where
  numbers : (s.pools.map (·.number)).Nodup
  issued : ∀ p ∈ s.pools, p.Issued
  /-- The next place of a pool was not given to any object yet. -/
  fresh : ∀ p ∈ s.pools, ∀ x ∈ s.made, x.id.pool = p.number → x.id.serial < p.issued
  known : ∀ x ∈ s.made, x.id.pool ∈ s.pools.map (·.number)
  distinct : (s.made.map (·.id)).Nodup
  balanced : s.made.Perm (s.idle ++ s.held ++ s.disposed)

theorem Balanced.create {s : Circulation T} {settings : PoolSettings} {number : Nat} {p : Pool T}
    (h : s.Balanced) (hn : ∀ q ∈ s.pools, q.number ≠ number) (hp : Pool.create settings number = .ok p) :
    Balanced { s with pools := p :: s.pools } := by
  have hissued := Pool.Issued.of_create hp
  obtain rfl := Pool.eq_of_create hp
  refine ⟨List.nodup_cons.2 ⟨fun hm => ?_, h.numbers⟩, List.forall_mem_cons.2 ⟨hissued, h.issued⟩,
    List.forall_mem_cons.2 ⟨fun x hx hid => ?_, h.fresh⟩, fun x hx => List.mem_cons_of_mem _ (h.known x hx),
    h.distinct, h.balanced⟩
  · obtain ⟨q, hq, he⟩ := List.mem_map.1 hm
    exact hn q hq he
  · obtain ⟨q, hq, he⟩ := List.mem_map.1 (h.known x hx)
    exact absurd (he.trans hid) (hn q hq)

section

variable {before after : List (Pool T)} {p q : Pool T}
  {held kept given made disposed care newMade newDisposed : List (Pooled T)}

theorem idle_append : (⟨before ++ p :: after, held, made, disposed⟩ : Circulation T).idle =
    before.flatMap Pool.stock ++ (p.stock ++ after.flatMap Pool.stock) := by
  unfold idle
  rw [List.flatMap_append, List.flatMap_cons]

/-- If one pool accounts for its objects and those handed over to it, all objects are accounted for. -/
theorem perm_of_accounted (h : made.Perm (idle ⟨before ++ p :: after, held, made, disposed⟩ ++ held ++ disposed))
    (hcare : (p.stock ++ held).Perm (care ++ kept))
    (ha : (care ++ newMade).Perm (q.stock ++ given ++ newDisposed)) :
    (made ++ newMade).Perm
      (idle ⟨before ++ q :: after, given ++ kept, made ++ newMade, disposed ++ newDisposed⟩ ++
        (given ++ kept) ++ (disposed ++ newDisposed)) := by
  -- every object occurs as often on one side as on the other
  classical
  rw [List.perm_iff_count]
  intro x
  have hall := h.count_eq x
  have hone := hcare.count_eq x
  have hnew := ha.count_eq x
  simp only [idle_append, List.count_append] at hall hone hnew ⊢
  omega

namespace Balanced

theorem other (h : Balanced ⟨before ++ p :: after, held, made, disposed⟩) {o : Pool T}
    (ho : o ∈ before ++ after) : o ∈ before ++ p :: after ∧ o.number ≠ p.number := by
  have hperm : (before ++ p :: after).Perm (p :: (before ++ after)) := List.perm_middle
  have hnodup := (hperm.map (·.number)).nodup_iff.1 h.numbers
  rw [List.map_cons, List.nodup_cons] at hnodup
  refine ⟨hperm.mem_iff.2 (List.mem_cons_of_mem p ho), fun he => ?_⟩
  exact hnodup.1 (he ▸ List.mem_map_of_mem ho)

/-- What one pool makes is new to all of them. -/
theorem distinct_append (h : Balanced ⟨before ++ p :: after, held, made, disposed⟩)
    (ha : Exchange.Accounted p.number p.issued care newMade newDisposed q given) :
    ((made ++ newMade).map (·.id)).Nodup := by
  rw [List.map_append]
  refine List.nodup_append.2 ⟨h.distinct, ha.distinct, fun i hi j hj hij => ?_⟩
  obtain ⟨x, hx, rfl⟩ := List.mem_map.1 hi
  obtain ⟨y, hy, rfl⟩ := List.mem_map.1 hj
  obtain ⟨hpool, hserial, -⟩ := ha.fresh y hy
  rw [← hij] at hpool hserial
  have hlt := h.fresh p (List.mem_append_right _ List.mem_cons_self) x hx hpool
  omega

/-- A request to one of the pools keeps the balance if it accounts for the idle objects of that pool and
for whatever its caller hands over. -/
theorem request (h : Balanced ⟨before ++ p :: after, held, made, disposed⟩) (hq : q.Issued)
    (hcare : (p.stock ++ held).Perm (care ++ kept))
    (ha : Exchange.Accounted p.number p.issued care newMade newDisposed q given) :
    Balanced ⟨before ++ q :: after, given ++ kept, made ++ newMade, disposed ++ newDisposed⟩ := by
  have hnumbers : (before ++ q :: after).map (·.number) = (before ++ p :: after).map (·.number) := by
    rw [List.map_append, List.map_append, List.map_cons, List.map_cons, ha.number_eq]
  have hp : p ∈ before ++ p :: after := List.mem_append_right _ List.mem_cons_self
  have hmem : ∀ o ∈ before ++ q :: after, o = q ∨ o ∈ before ++ after := fun o ho =>
    List.mem_cons.1 (List.perm_middle.mem_iff.1 ho)
  refine ⟨hnumbers ▸ h.numbers, fun o ho => ?_, fun o ho x hx hid => ?_, fun x hx => ?_,
    h.distinct_append ha, perm_of_accounted h.balanced hcare ha.balanced⟩
  · rcases hmem o ho with rfl | ho
    · exact hq
    · exact h.issued o (h.other ho).1
  · -- a new object has a place of this pool, whose places given out before are all below it
    rcases hmem o ho with rfl | ho <;> rcases List.mem_append.1 hx with hx | hx
    · exact Nat.lt_of_lt_of_le (h.fresh p hp x hx (hid.trans ha.number_eq)) ha.issued_le
    · exact (ha.fresh x hx).2.2
    · exact h.fresh o (h.other ho).1 x hx hid
    · exact absurd (hid.symm.trans (ha.fresh x hx).1) (h.other ho).2
  · rw [hnumbers]
    rcases List.mem_append.1 hx with hx | hx
    · exact h.known x hx
    · rw [(ha.fresh x hx).1]
      exact List.mem_map_of_mem hp

/-- An exchange keeps the balance if it only takes steps of its pool and accounts for what is in its care. -/
theorem exchange {now : Moment} {e : Exchange T α} {handedOut : α → List (Pooled T)}
    {calls : List (OwnerCall T)} {r : α} (h : Balanced ⟨before ++ p :: after, held, made, disposed⟩)
    (hsteps : e.Always (p.Reaches now)) (hcare : (p.stock ++ held).Perm (care ++ kept))
    (ha : e.AccountsFor handedOut p.number p.issued care) (he : e.Ends calls q r) :
    Balanced ⟨before ++ q :: after, handedOut r ++ kept, made ++ OwnerCall.made calls,
      disposed ++ OwnerCall.disposed calls⟩ := by
  have hp : p.Issued := h.issued p (List.mem_append_right _ List.mem_cons_self)
  exact h.request (hp.reaches (hsteps.of_ends he)) hcare (ha.of_ends he)

end Balanced

end

theorem Run.balanced {s : Circulation T} (h : s.Run) : s.Balanced := by
  induction h with
  | empty => exact ⟨List.nodup_nil, by simp, by simp, by simp, List.nodup_nil, .refl _⟩
  | create _ hn hp ih => exact ih.create hn hp
  | borrow _ he ih => exact ih.exchange (Pool.always_borrow 0 _) (.refl _) (Pool.accountsFor_borrow _) he
  | @giveBack _ p _ first x rest _ _ _ _ _ clock _ he ih =>
    have hcare : (p.stock ++ (first ++ x :: rest)).Perm (p.stock ++ [x] ++ (first ++ rest)) := by
      rw [List.append_assoc]
      exact List.perm_middle.append_left p.stock
    exact ih.exchange (Pool.always_giveBack p x clock) hcare (Pool.accountsFor_giveBack p x clock) he
  | trim clock _ he ih =>
    exact ih.exchange (Pool.always_trim 0 _ clock) (.refl _) (Pool.accountsFor_trim _ clock) he
  | shutDown _ he ih =>
    exact ih.exchange (Pool.always_shutDown 0 _) (.refl _) (Pool.accountsFor_shutDown _) he

/-- Every object that was made is in one place: idle in the one pool that made it, held once, or disposed
of once. -/
structure InOnePlace (s : Circulation T) : Prop where
  somewhere : s.made.Perm (s.idle ++ s.held ++ s.disposed)
  once : ((s.idle ++ s.held ++ s.disposed).map (·.id)).Nodup
  home : ∀ p ∈ s.pools, ∀ x ∈ p.stock, x.id.pool = p.number ∧ ∀ o ∈ s.pools, x ∈ o.stock → o = p

theorem Balanced.inOnePlace {s : Circulation T} (h : s.Balanced) : s.InOnePlace where
  somewhere := h.balanced
  once := (h.balanced.map (·.id)).nodup_iff.1 h.distinct
  home p hp x hx := by
    have hpool : x.id.pool = p.number := (h.issued p hp).pool_eq hx
    refine ⟨hpool, fun o ho hxo => List.inj_on_of_nodup_map h.numbers ho hp ?_⟩
    rw [← hpool]
    exact ((h.issued o ho).pool_eq hxo).symm

/-- After any requests every object is in one place. Returned to a pool where it is not in use, it is disposed
of, and the pool is left as it is. -/
theorem everything_in_one_place {s : Circulation T} (h : s.Run) :
    s.InOnePlace ∧
    (∀ (p : Pool T) calls q r, p.borrow.Ends calls q r → ∀ x ∈ OwnerCall.made calls, x.id.pool = p.number) ∧
    ∀ (p : Pool T) (x : Pooled T) (clock : Clock), x.id ∉ p.active → ∀ calls q r,
      (p.giveBack x clock).Ends calls q r ↔
        calls = [.dispose x] ∧ q = p ∧ r = .error (.illegalState (.notActive x.id)) := by
  refine ⟨h.balanced.inOnePlace, fun p calls q r he x hx => ?_, fun p x clock hx calls q r => ?_⟩
  · exact (((Pool.accountsFor_borrow p).of_ends he).fresh x hx).1
  · exact Pool.ends_giveBack_iff hx clock

/-- A pool of two objects; a lender has lent the first. -/
def pair (number : Nat) : Pool Int64 := { settings := ⟨2, 1, 0, 0, 0⟩, number }

def lender (number : Nat) : Pool Int64 := (pair number).reserve.2

theorem pair_lends (number : Nat) (object : Int64) :
    (pair number).borrow.Ends [.make ⟨number, 0⟩ (.ok object), .test ⟨⟨number, 0⟩, object⟩ (.ok ())]
      (lender number) (.ok ⟨⟨number, 0⟩, object⟩) :=
  .make (.ok object) (.test (.ok ()) (.done _ _))

theorem everything_in_one_place_wrong_pool :
    Run ⟨[lender 0, lender 1], [⟨⟨1, 0⟩, 2⟩], [⟨⟨0, 0⟩, 1⟩, ⟨⟨1, 0⟩, 2⟩], [⟨⟨0, 0⟩, 1⟩]⟩ ∧
    InOnePlace ⟨[lender 0, lender 1], [⟨⟨1, 0⟩, 2⟩], [⟨⟨0, 0⟩, 1⟩, ⟨⟨1, 0⟩, 2⟩], [⟨⟨0, 0⟩, 1⟩]⟩ := by
  have h1 : Run ⟨[pair 1], [], [], []⟩ := @Run.create _ {} ⟨2, 1, 0, 0, 0⟩ 1 _ .empty (by simp) rfl
  have h2 : Run ⟨[pair 0, pair 1], [], [], []⟩ :=
    @Run.create _ _ ⟨2, 1, 0, 0, 0⟩ 0 _ h1 (by simp [pair]) rfl
  have h3 : Run ⟨[lender 0, pair 1], [⟨⟨0, 0⟩, 1⟩], [⟨⟨0, 0⟩, 1⟩], []⟩ :=
    @Run.borrow _ [] _ _ _ _ _ _ _ _ h2 (pair_lends 0 1)
  have h4 : Run ⟨[lender 0, lender 1], [⟨⟨1, 0⟩, 2⟩, ⟨⟨0, 0⟩, 1⟩], [⟨⟨0, 0⟩, 1⟩, ⟨⟨1, 0⟩, 2⟩], []⟩ :=
    @Run.borrow _ [_] _ _ _ _ _ _ _ _ h3 (pair_lends 1 2)
  have hwrong := (Pool.ends_giveBack_iff (p := lender 1) (x := ⟨⟨0, 0⟩, 1⟩) (by decide) (3 : Moment)).2
    ⟨rfl, rfl, rfl⟩
  have h5 : Run ⟨[lender 0, lender 1], [⟨⟨1, 0⟩, 2⟩], [⟨⟨0, 0⟩, 1⟩, ⟨⟨1, 0⟩, 2⟩], [⟨⟨0, 0⟩, 1⟩]⟩ :=
    @Run.giveBack _ [_] _ _ [_] _ [] _ _ _ _ _ (3 : Moment) h4 hwrong
  exact ⟨h5, (everything_in_one_place h5).1⟩

end Circulation

end Provisioning
