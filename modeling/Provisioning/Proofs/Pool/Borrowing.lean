import Provisioning.Proofs.Pool.Draining
import Provisioning.Proofs.Pool.Limits

/-! Borrowing. A caller gets the first of the idle objects that passes its test; those before it are given up. If
none passes, one object is made, as long as there is room, and there is room wherever an object was idle:
`hands_out_first_fit`. Whatever else comes of it, the places in use are those of before. -/

namespace Provisioning

variable {T : Type}

def OwnerCall.breakdown? : OwnerCall T → Option Breakdown
  | make _ (.error b) => some b
  | test _ (.error b) => some b
  | _ => none

namespace Pool

variable {p q : Pool T} {calls : List (OwnerCall T)} {r : Outcome (Pooled T)}

def discarding (stale : List (IdleEntry T × Failure)) : List (OwnerCall T) :=
  stale.flatMap fun s => [.test s.1.toPooled (.error (.failed s.2)), .dispose s.1.toPooled]

def nextPlace (p : Pool T) : EntryId := ⟨p.number, p.issued⟩

/-- How a request for an object may be settled without going on to another object, with the calls to the owner. -/
inductive Settled (p : Pool T) : List (OwnerCall T) → Pool T → Outcome (Pooled T) → Prop
  /-- The oldest idle object passes its test. -/
  | reused {x rest} : p.idle = x :: rest →
      Settled p [.test x.toPooled (.ok ())] { p with idle := rest, active := x.id :: p.active } (.ok x.toPooled)
  /-- The test of the oldest idle object breaks off. -/
  | brokenOff {x rest} : p.idle = x :: rest →
      Settled p [.test x.toPooled (.error .aborted), .dispose x.toPooled] { p with idle := rest } (.error .aborted)
  /-- A new object passes its test. -/
  | made (object : T) : p.idle = [] → p.hasRoom = true →
      Settled p [.make p.nextPlace (.ok object), .test ⟨p.nextPlace, object⟩ (.ok ())]
        { p with active := p.nextPlace :: p.active, issued := p.issued + 1 } (.ok ⟨p.nextPlace, object⟩)
  /-- A new object does not pass its test. -/
  | spoiled (object : T) (b : Breakdown) : p.idle = [] → p.hasRoom = true →
      Settled p [.make p.nextPlace (.ok object), .test ⟨p.nextPlace, object⟩ (.error b),
        .dispose ⟨p.nextPlace, object⟩] { p with issued := p.issued + 1 } (.error b)
  /-- No object can be made. -/
  | unmade (b : Breakdown) : p.idle = [] → p.hasRoom = true →
      Settled p [.make p.nextPlace (.error b)] { p with issued := p.issued + 1 } (.error b)
  /-- There is no room for a new object. -/
  | exhausted : p.idle = [] → p.hasRoom = false →
      Settled p [] p (.error (.failed (.poolExhausted p.settings.maxWaitMs.toNat)))

/-- What may come of a request for an object: some of the idle objects, the oldest, fail their tests, and then
the request is settled. -/
inductive Borrowed (p : Pool T) : List (OwnerCall T) → Pool T → Outcome (Pooled T) → Prop
  | mk {stale kept last q r} : p.idle = stale.map Prod.fst ++ kept → Settled { p with idle := kept } last q r →
      Borrowed p (discarding stale ++ last) q r

theorem ends_handOut_iff {x : Pooled T} {otherwise : Pool T → Failure → Exchange T (Outcome (Pooled T))} :
    (p.handOut x otherwise).Ends calls q r ↔
      (calls = [.test x (.ok ())] ∧ q = p ∧ r = .ok x) ∨
      (∃ f rest, calls = .test x (.error (.failed f)) :: .dispose x :: rest ∧
        (otherwise (p.release x.id) f).Ends rest q r) ∨
      (calls = [.test x (.error .aborted), .dispose x] ∧ q = p.release x.id ∧ r = .error .aborted) := by
  unfold handOut
  rw [Exchange.ends_test_iff]
  constructor
  · rintro ⟨tested, rest, rfl, hnext⟩
    cases tested with
    | ok u =>
      obtain ⟨rfl, rfl, rfl⟩ := Exchange.ends_done_iff.1 hnext
      exact .inl ⟨rfl, rfl, rfl⟩
    | error b =>
      cases b with
      | failed f =>
        obtain ⟨rest, rfl, hrest⟩ := Exchange.ends_dispose_iff.1 hnext
        exact .inr (.inl ⟨f, rest, rfl, hrest⟩)
      | aborted =>
        obtain ⟨rest, rfl, hrest⟩ := Exchange.ends_dispose_iff.1 hnext
        obtain ⟨rfl, rfl, rfl⟩ := Exchange.ends_done_iff.1 hrest
        exact .inr (.inr ⟨rfl, rfl, rfl⟩)
  · rintro (⟨rfl, rfl, rfl⟩ | ⟨f, rest, rfl, hrest⟩ | ⟨rfl, rfl, rfl⟩)
    · exact ⟨.ok (), [], rfl, .done _ _⟩
    · exact ⟨.error (.failed f), _, rfl, .dispose hrest⟩
    · exact ⟨.error .aborted, _, rfl, .dispose (.done _ _)⟩

theorem ends_handOutNew_iff :
    p.handOutNew.Ends calls q r ↔
      (∃ object, calls = [.make p.nextPlace (.ok object), .test ⟨p.nextPlace, object⟩ (.ok ())] ∧
        q = p.reserve.2 ∧ r = .ok ⟨p.nextPlace, object⟩) ∨
      (∃ object b, calls = [.make p.nextPlace (.ok object), .test ⟨p.nextPlace, object⟩ (.error b),
        .dispose ⟨p.nextPlace, object⟩] ∧ q = { p with issued := p.issued + 1 } ∧ r = .error b) ∨
      (∃ b, calls = [.make p.nextPlace (.error b)] ∧ q = { p with issued := p.issued + 1 } ∧ r = .error b) := by
  have hfree : p.reserve.2.release p.nextPlace = { p with issued := p.issued + 1 } := by
    unfold release
    rw [show p.reserve.2.active = p.nextPlace :: p.active from rfl, List.erase_cons_head]
    rfl
  unfold handOutNew
  rw [Exchange.ends_make_iff]
  constructor
  · rintro ⟨made, rest, rfl, hnext⟩
    cases made with
    | ok object =>
      rcases ends_handOut_iff.1 hnext with ⟨rfl, rfl, rfl⟩ | ⟨f, rest, rfl, hrest⟩ | ⟨rfl, rfl, rfl⟩
      · exact .inl ⟨object, rfl, rfl, rfl⟩
      · obtain ⟨rfl, rfl, rfl⟩ := Exchange.ends_done_iff.1 hrest
        exact .inr (.inl ⟨object, .failed f, rfl, hfree, rfl⟩)
      · exact .inr (.inl ⟨object, .aborted, rfl, hfree, rfl⟩)
    | error b =>
      obtain ⟨rfl, rfl, rfl⟩ := Exchange.ends_done_iff.1 hnext
      exact .inr (.inr ⟨b, rfl, hfree, rfl⟩)
  · rintro (⟨object, rfl, rfl, rfl⟩ | ⟨object, b, rfl, rfl, rfl⟩ | ⟨b, rfl, rfl, rfl⟩)
    · exact ⟨.ok object, _, rfl, ends_handOut_iff.2 (.inl ⟨rfl, rfl, rfl⟩)⟩
    · refine ⟨.ok object, _, rfl, ends_handOut_iff.2 (.inr ?_)⟩
      cases b with
      | failed f => exact .inl ⟨f, [], rfl, Exchange.ends_done_iff.2 ⟨rfl, hfree.symm, rfl⟩⟩
      | aborted => exact .inr ⟨rfl, hfree.symm, rfl⟩
    · exact ⟨.error b, [], rfl, Exchange.ends_done_iff.2 ⟨rfl, hfree.symm, rfl⟩⟩

theorem borrowed_cons_iff {e : IdleEntry T} {rest : List (IdleEntry T)} :
    Borrowed { p with idle := e :: rest } calls q r ↔
      Settled { p with idle := e :: rest } calls q r ∨
      ∃ f calls', calls = .test e.toPooled (.error (.failed f)) :: .dispose e.toPooled :: calls' ∧
        Borrowed { p with idle := rest } calls' q r := by
  constructor
  · rintro ⟨hidle, hsettled⟩
    rename_i stale kept last
    cases stale with
    | nil =>
      cases hidle
      exact .inl hsettled
    | cons s stale =>
      cases hidle
      exact .inr ⟨s.2, _, rfl, .mk rfl hsettled⟩
  · rintro (hsettled | ⟨f, calls', rfl, ⟨hidle, hsettled⟩⟩)
    · exact @Borrowed.mk _ _ [] _ _ _ _ rfl hsettled
    · rename_i stale kept last
      exact @Borrowed.mk _ _ ((e, f) :: stale) _ _ _ _ (congrArg (e :: ·) hidle) hsettled

theorem settled_cons_iff {e : IdleEntry T} {rest : List (IdleEntry T)} :
    Settled { p with idle := e :: rest } calls q r ↔
      (calls = [.test e.toPooled (.ok ())] ∧ q = { p with idle := rest, active := e.id :: p.active } ∧
        r = .ok e.toPooled) ∨
      (calls = [.test e.toPooled (.error .aborted), .dispose e.toPooled] ∧ q = { p with idle := rest } ∧
        r = .error .aborted) := by
  constructor
  · intro h
    cases h with
    | reused hidle =>
      cases hidle
      exact .inl ⟨rfl, rfl, rfl⟩
    | brokenOff hidle =>
      cases hidle
      exact .inr ⟨rfl, rfl, rfl⟩
    | made _ hidle => cases hidle
    | spoiled _ _ hidle => cases hidle
    | unmade _ hidle => cases hidle
    | exhausted hidle => cases hidle
  · rintro (⟨rfl, rfl, rfl⟩ | ⟨rfl, rfl, rfl⟩)
    · exact .reused (p := { p with idle := e :: rest }) rfl
    · exact .brokenOff (p := { p with idle := e :: rest }) rfl

theorem borrowed_nil_iff : Borrowed { p with idle := [] } calls q r ↔ Settled { p with idle := [] } calls q r := by
  constructor
  · rintro ⟨hidle, hsettled⟩
    obtain ⟨hstale, rfl⟩ := List.nil_eq_append_iff.1 hidle
    obtain rfl := List.map_eq_nil_iff.1 hstale
    exact hsettled
  · exact fun hsettled => @Borrowed.mk _ _ [] _ _ _ _ rfl hsettled

theorem ends_borrowFrom_iff {l : List (IdleEntry T)} :
    (p.borrowFrom l).Ends calls q r ↔ Borrowed { p with idle := l } calls q r := by
  induction l generalizing calls with
  | nil =>
    rw [borrowed_nil_iff]
    unfold borrowFrom
    by_cases hroom : ({ p with idle := [] } : Pool T).hasRoom = true
    · rw [if_pos hroom, ends_handOutNew_iff]
      constructor
      · rintro (⟨object, rfl, rfl, rfl⟩ | ⟨object, b, rfl, rfl, rfl⟩ | ⟨b, rfl, rfl, rfl⟩)
        · exact .made object rfl hroom
        · exact .spoiled object b rfl hroom
        · exact .unmade b rfl hroom
      · intro h
        cases h with
        | reused hidle => cases hidle
        | brokenOff hidle => cases hidle
        | made object => exact .inl ⟨object, rfl, rfl, rfl⟩
        | spoiled object b => exact .inr (.inl ⟨object, b, rfl, rfl, rfl⟩)
        | unmade b => exact .inr (.inr ⟨b, rfl, rfl, rfl⟩)
        | exhausted _ hfull => exact absurd hroom (by simp [hfull])
    · rw [if_neg hroom, Exchange.ends_done_iff]
      constructor
      · rintro ⟨rfl, rfl, rfl⟩
        exact .exhausted rfl (by simpa using hroom)
      · intro h
        cases h with
        | reused hidle => cases hidle
        | brokenOff hidle => cases hidle
        | made _ _ h => exact absurd h hroom
        | spoiled _ _ _ h => exact absurd h hroom
        | unmade _ _ h => exact absurd h hroom
        | exhausted => exact ⟨rfl, rfl, rfl⟩
  | cons oldest rest ih =>
    rw [borrowed_cons_iff, settled_cons_iff, borrowFrom, ends_handOut_iff, release_take, or_assoc]
    refine or_congr Iff.rfl ?_
    rw [or_comm]
    refine or_congr Iff.rfl ?_
    exact exists_congr fun f => exists_congr fun calls' => and_congr_right fun _ => ih

theorem ends_borrow_iff_of_open (hopen : p.closed = false) : p.borrow.Ends calls q r ↔ Borrowed p calls q r := by
  unfold borrow
  rw [if_neg (by simp [hopen]), ends_borrowFrom_iff]

/-- Where there are no more objects than that are allowed, there is room for one instead of an idle one. -/
theorem hasRoom_eq_false_iff
    (hp : p.statistics.active + p.statistics.idle ≤ p.settings.maxObjects.toNat) :
    p.hasRoom = false ↔ p.idle = [] ∧ p.statistics.active = p.settings.maxObjects.toNat := by
  have hfull : p.hasRoom = false ↔ p.settings.maxObjects.toNat ≤ p.statistics.active := by
    simp [hasRoom, statistics]
  rw [hfull, ← List.length_eq_zero_iff]
  change _ ↔ p.statistics.idle = 0 ∧ _
  omega

theorem Borrowed.mem_idle_or_new {x : Pooled T} (h : Borrowed p calls q (.ok x)) :
    (∃ e ∈ p.idle, e.toPooled = x) ∨ x.id = p.nextPlace := by
  obtain ⟨hidle, hsettled⟩ := h
  cases hsettled with
  | reused hkept =>
    cases hkept
    exact .inl ⟨_, hidle ▸ List.mem_append_right _ List.mem_cons_self, rfl⟩
  | made object => exact .inr rfl

/-- A request fails as the owner failed a call, unless there is no room. -/
theorem Borrowed.breakdown {b : Breakdown} (h : Borrowed p calls q (.error b)) :
    (∃ call ∈ calls, call.breakdown? = some b) ∨
      p.hasRoom = false ∧ b = .failed (.poolExhausted p.settings.maxWaitMs.toNat) := by
  obtain ⟨hidle, hsettled⟩ := h
  cases hsettled with
  | @brokenOff x =>
    exact .inl ⟨.test x.toPooled (.error .aborted), List.mem_append_right _ List.mem_cons_self, rfl⟩
  | spoiled object =>
    refine .inl ⟨.test ⟨p.nextPlace, object⟩ (.error b), List.mem_append_right _ ?_, rfl⟩
    exact List.mem_cons_of_mem _ List.mem_cons_self
  | unmade => exact .inl ⟨.make p.nextPlace (.error b), List.mem_append_right _ List.mem_cons_self, rfl⟩
  | exhausted _ hfull => exact .inr ⟨hfull, rfl⟩

/-- A request for an object tries the idle ones, the oldest first, and gives up those that fail their test; an
object is made only if none is left. It fails for want of room only with nothing idle and all objects in use. -/
theorem hands_out_first_fit {settings : PoolSettings} {number : Nat} {now : Moment} (h : Run settings number p now)
    (hopen : p.closed = false) :
    (∀ calls q r, p.borrow.Ends calls q r ↔ Borrowed p calls q r) ∧
    (∀ {World : Type} (owner : PoolOwner World T) (w : World), ∃ calls, owner.Answers calls w ∧
      Borrowed p calls (p.borrow.run owner w).1.1 (p.borrow.run owner w).1.2) ∧
    (p.hasRoom = false ↔ p.idle = [] ∧ p.statistics.active = settings.maxObjects.toNat) ∧
    (p.hasRoom = false → ∀ calls q r, p.borrow.Ends calls q r ↔
      calls = [] ∧ q = p ∧ r = .error (.failed (.poolExhausted settings.maxWaitMs.toNat))) ∧
    (∀ calls q x, p.borrow.Ends calls q (.ok x) → x.id ∉ p.active ∧ q.active = x.id :: p.active) ∧
    ∀ calls q b, p.borrow.Ends calls q (.error b) →
      q.active = p.active ∧ (p.idle ≠ [] → ∃ call ∈ calls, call.breakdown? = some b) := by
  have hinvariant := h.invariant
  obtain rfl := hinvariant.settings_eq
  have hends : ∀ calls q r, p.borrow.Ends calls q r ↔ Borrowed p calls q r := fun _ _ _ =>
    ends_borrow_iff_of_open hopen
  have hroom := hasRoom_eq_false_iff hinvariant.total
  refine ⟨hends, fun owner w => ?_, hroom, fun hfull calls q r => ?_, fun calls q x he => ?_, fun calls q b he => ?_⟩
  · obtain ⟨calls, he, hanswers⟩ := p.borrow.answers_run owner w
    exact ⟨calls, hanswers, (hends _ _ _).1 he⟩
  · -- nothing is idle, and nothing can be made
    have hidle := (hroom.1 hfull).1
    unfold borrow
    rw [if_neg (by simp [hopen]), hidle, borrowFrom, ← hidle, if_neg (by simp [hfull])]
    exact Exchange.ends_done_iff
  · have hactive := ((endsIn_borrow p).of_ends he).active
    refine ⟨fun hx => ?_, hactive⟩
    rcases ((hends _ _ _).1 he).mem_idle_or_new with ⟨e, hidle, rfl⟩ | hnew
    · exact (List.nodup_append.1 hinvariant.distinct).2.2 _ (List.mem_map_of_mem hidle) _ hx rfl
    · have hplace := (hinvariant.issued x.id (List.mem_append_right _ hx)).2
      rw [hnew] at hplace
      exact Nat.lt_irrefl _ hplace
  · have hactive := ((endsIn_borrow p).of_ends he).active
    refine ⟨hactive, fun hidle => ?_⟩
    exact ((hends _ _ _).1 he).breakdown.resolve_right fun hfull => hidle (hroom.1 hfull.1).1

def fewIdle : PoolSettings := ⟨3, 2, 1, 0, 1⟩

def twoIdle : Pool Int64 where
  settings := fewIdle
  number := 0
  idle := [⟨⟨⟨0, 0⟩, 1⟩, 5⟩, ⟨⟨⟨0, 1⟩, 2⟩, 6⟩]
  active := [⟨0, 2⟩]
  issued := 3

theorem run_twoIdle : Run fewIdle 0 twoIdle 6 := by
  have h0 : Run fewIdle 0 (⟨fewIdle, 0, [], [], false, 0⟩ : Pool Int64) 5 := .create 5 rfl
  obtain ⟨_, e1⟩ := Exchange.ends_run Memory.Stock.owner (Pool.borrow _) {}
  obtain ⟨_, e2⟩ := Exchange.ends_run Memory.Stock.owner (Pool.borrow _) { made := 1 }
  obtain ⟨_, e3⟩ := Exchange.ends_run Memory.Stock.owner (Pool.borrow _) { made := 2 }
  have h3 := ((h0.borrow e1).borrow e2).borrow e3
  obtain ⟨_, e4⟩ := Exchange.ends_run Memory.Stock.owner (Pool.giveBack _ ⟨⟨0, 0⟩, 1⟩ (5 : Moment)) {}
  have h4 := h3.giveBack ⟨⟨0, 0⟩, 1⟩ (5 : Moment) (by decide) e4
  obtain ⟨_, e5⟩ := Exchange.ends_run Memory.Stock.owner (Pool.giveBack _ ⟨⟨0, 1⟩, 2⟩ (6 : Moment)) {}
  exact h4.giveBack ⟨⟨0, 1⟩, 2⟩ (6 : Moment) (by decide) e5

/-- The first object no longer answers and is given up; the second is handed out under its place. -/
theorem hands_out_first_fit_stale :
    let gone : Pooled Int64 := ⟨⟨0, 0⟩, 1⟩
    let fit : Pooled Int64 := ⟨⟨0, 1⟩, 2⟩
    let broken : Failure := .connectionFailed "reset" none
    Run fewIdle 0 twoIdle 6 ∧ twoIdle.closed = false ∧
    twoIdle.borrow.Ends [.test gone (.error (.failed broken)), .dispose gone, .test fit (.ok ())]
      { twoIdle with idle := [], active := fit.id :: twoIdle.active } (.ok fit) ∧
    fit.id ∉ twoIdle.active := by
  intro gone fit broken
  obtain ⟨hends, -, -, -, hplace, -⟩ := hands_out_first_fit run_twoIdle rfl
  have hfit : twoIdle.borrow.Ends [.test gone (.error (.failed broken)), .dispose gone, .test fit (.ok ())]
      { twoIdle with idle := [], active := fit.id :: twoIdle.active } (.ok fit) := by
    refine (hends _ _ _).2 (@Borrowed.mk _ _ [(⟨gone, 5⟩, broken)] [⟨fit, 6⟩] _ _ _ rfl ?_)
    exact .reused (p := { twoIdle with idle := [⟨fit, 6⟩] }) rfl
  exact ⟨run_twoIdle, rfl, hfit, (hplace _ _ _ hfit).1⟩

end Pool

end Provisioning
