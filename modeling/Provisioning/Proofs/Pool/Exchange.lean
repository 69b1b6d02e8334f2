import Mathlib.Logic.Relation
import Provisioning.Pool.Exchange

/-! How exchanges can go. The owner of a pool may answer as it likes: `Exchange.Ends` is the relation
between an exchange and all the ways in which it may end, `Exchange.Always` what holds whenever the owner
is called and at the end. Whatever is asked of a pool, it only ever takes steps of six kinds, each at
once, so what every step keeps holds all the way through an exchange (`Pool.always_borrow` and the rest). -/

namespace Provisioning

inductive OwnerCall (T : Type) where
  | make (id : EntryId) (made : Outcome T)
  | test (entry : Pooled T) (tested : Outcome Unit)
  | dispose (entry : Pooled T)

def PoolOwner.Answers {T World : Type} (owner : PoolOwner World T) : List (OwnerCall T) → World → Prop
  | [], _ => True
  | .make _ made :: rest, w => (owner.make w).1 = made ∧ owner.Answers rest (owner.make w).2
  | .test x tested :: rest, w =>
    (owner.test x.object w).1 = tested ∧ owner.Answers rest (owner.test x.object w).2
  | .dispose x :: rest, w => owner.Answers rest (owner.dispose x.object w).2

theorem PoolOwner.Answers.later {T World : Type} {owner : PoolOwner World T} {calls rest : List (OwnerCall T)}
    {w : World} (h : owner.Answers (calls ++ rest) w) : ∃ w', owner.Answers rest w' := by
  induction calls generalizing w with
  | nil => exact ⟨w, h⟩
  | cons call calls ih =>
    cases call with
    | make id made => exact ih h.2
    | test x tested => exact ih h.2
    | dispose x => exact ih h

namespace Exchange

variable {T α World : Type}

/-- An exchange can end with these calls, this pool and this result. -/
inductive Ends : Exchange T α → List (OwnerCall T) → Pool T → α → Prop
  | done (p : Pool T) (r : α) : Ends (.done p r) [] p r
  | make {p id next calls q r} (made : Outcome T) :
      Ends (next made) calls q r → Ends (.make p id next) (.make id made :: calls) q r
  | test {p x next calls q r} (tested : Outcome Unit) :
      Ends (next tested) calls q r → Ends (.test p x next) (.test x tested :: calls) q r
  | dispose {p x next calls q r} :
      Ends next calls q r → Ends (.dispose p x next) (.dispose x :: calls) q r

/-- What holds of the pool at every call to its owner and at the end, whatever the owner answers. -/
def Always (P : Pool T → Prop) : Exchange T α → Prop
  | done p _ => P p
  | make p _ next => P p ∧ ∀ made, (next made).Always P
  | test p _ next => P p ∧ ∀ tested, (next tested).Always P
  | dispose p _ next => P p ∧ next.Always P

theorem Always.mono {P Q : Pool T → Prop} (h : ∀ p, P p → Q p) {e : Exchange T α} (he : e.Always P) :
    e.Always Q := by
  induction e with
  | done p r => exact h p he
  | make p id next ih => exact ⟨h p he.1, fun made => ih made (he.2 made)⟩
  | test p x next ih => exact ⟨h p he.1, fun tested => ih tested (he.2 tested)⟩
  | dispose p x next ih => exact ⟨h p he.1, ih he.2⟩

theorem Always.of_ends {P : Pool T → Prop} {e : Exchange T α} {calls : List (OwnerCall T)} {q : Pool T}
    {r : α} (he : e.Always P) (h : e.Ends calls q r) : P q := by
  induction h with
  | done p r => exact he
  | make made _ ih => exact ih (he.2 made)
  | test tested _ ih => exact ih (he.2 tested)
  | dispose _ ih => exact ih he.2

section Inversion

variable {p q : Pool T} {r : α} {calls : List (OwnerCall T)}

theorem ends_done_iff {r' : α} : (Exchange.done p r).Ends calls q r' ↔ calls = [] ∧ q = p ∧ r' = r := by
  constructor
  · rintro ⟨⟩
    exact ⟨rfl, rfl, rfl⟩
  · rintro ⟨rfl, rfl, rfl⟩
    exact .done _ _

theorem ends_make_iff {id : EntryId} {next : Outcome T → Exchange T α} :
    (Exchange.make p id next).Ends calls q r ↔
      ∃ made rest, calls = .make id made :: rest ∧ (next made).Ends rest q r := by
  constructor
  · rintro (_ | ⟨made, hnext⟩)
    exact ⟨made, _, rfl, hnext⟩
  · rintro ⟨made, rest, rfl, hnext⟩
    exact .make made hnext

theorem ends_test_iff {x : Pooled T} {next : Outcome Unit → Exchange T α} :
    (Exchange.test p x next).Ends calls q r ↔
      ∃ tested rest, calls = .test x tested :: rest ∧ (next tested).Ends rest q r := by
  constructor
  · rintro (_ | _ | ⟨tested, hnext⟩)
    exact ⟨tested, _, rfl, hnext⟩
  · rintro ⟨tested, rest, rfl, hnext⟩
    exact .test tested hnext

theorem ends_dispose_iff {x : Pooled T} {next : Exchange T α} :
    (Exchange.dispose p x next).Ends calls q r ↔ ∃ rest, calls = .dispose x :: rest ∧ next.Ends rest q r := by
  constructor
  · rintro (_ | _ | _ | hnext)
    exact ⟨_, rfl, hnext⟩
  · rintro ⟨rest, rfl, hnext⟩
    exact .dispose hnext

end Inversion

/-- Carried out with an owner, an exchange ends in the way to which the owner's answers lead. -/
theorem answers_run (owner : PoolOwner World T) (e : Exchange T α) (w : World) :
    ∃ calls, e.Ends calls (e.run owner w).1.1 (e.run owner w).1.2 ∧ owner.Answers calls w := by
  induction e generalizing w with
  | done p r => exact ⟨[], .done p r, trivial⟩
  | make p id next ih =>
    obtain ⟨calls, hends, hanswers⟩ := ih (owner.make w).1 (owner.make w).2
    exact ⟨_, .make _ hends, rfl, hanswers⟩
  | test p x next ih =>
    obtain ⟨calls, hends, hanswers⟩ := ih (owner.test x.object w).1 (owner.test x.object w).2
    exact ⟨_, .test _ hends, rfl, hanswers⟩
  | dispose p x next ih =>
    obtain ⟨calls, hends, hanswers⟩ := ih (owner.dispose x.object w).2
    exact ⟨_, .dispose hends, hanswers⟩

theorem ends_run (owner : PoolOwner World T) (e : Exchange T α) (w : World) :
    ∃ calls, e.Ends calls (e.run owner w).1.1 (e.run owner w).1.2 :=
  (e.answers_run owner w).imp fun _ h => h.1

end Exchange

namespace Pool

variable {T α : Type}

theorem eq_of_create {settings : PoolSettings} {number : Nat} {p : Pool T}
    (h : create settings number = .ok p) : p = { settings, number } := by
  unfold create at h
  cases hv : settings.validate with
  | error f => rw [hv] at h; cases h
  | ok u => rw [hv] at h; cases h; rfl

/-- What a pool does at once, beginning at a moment. -/
inductive Step (now : Moment) : Pool T → Pool T → Prop
  /-- The oldest idle object is about to be handed out. -/
  | take {p : Pool T} {oldest rest} : p.closed = false → p.idle = oldest :: rest →
      Step now p { p with idle := rest, active := oldest.id :: p.active }
  /-- A place is given out for an object to be made. -/
  | reserve {p : Pool T} : p.closed = false → p.idle = [] → p.hasRoom = true → Step now p p.reserve.2
  | release (p : Pool T) (id : EntryId) : Step now p (p.release id)
  /-- An object comes back, and what is too much goes. -/
  | putBack {p : Pool T} {x : Pooled T} (clock : Clock) : x.id ∈ p.active →
      Step now p ((p.putBack x now).evict clock).2
  | evict (p : Pool T) (clock : Clock) : Step now p (p.evict clock).2
  | close (p : Pool T) : Step now p p.close.2

def places (p : Pool T) : List EntryId := p.idle.map (·.id) ++ p.active

def Issued (p : Pool T) : Prop := ∀ id ∈ p.places, id.pool = p.number ∧ id.serial < p.issued

theorem splitSurplus_append (p : Pool T) (clock : Clock) (l : List (IdleEntry T)) :
    (p.splitSurplus clock l).1 ++ (p.splitSurplus clock l).2 = l := by
  induction l generalizing clock with
  | nil => rfl
  | cons oldest rest ih =>
    unfold splitSurplus
    split
    · exact congrArg (oldest :: ·) (ih clock.later)
    · rfl

theorem evict_sublist (p : Pool T) (clock : Clock) : (p.evict clock).2.idle.Sublist p.idle := by
  have h := List.sublist_append_right (p.splitSurplus clock p.idle).1 (p.splitSurplus clock p.idle).2
  rwa [splitSurplus_append] at h

theorem places_take {p : Pool T} {oldest : IdleEntry T} {rest : List (IdleEntry T)}
    (hi : p.idle = oldest :: rest) :
    ({ p with idle := rest, active := oldest.id :: p.active } : Pool T).places.Perm p.places := by
  unfold places
  rw [hi]
  exact List.perm_middle

theorem places_putBack {p : Pool T} {x : Pooled T} (hx : x.id ∈ p.active) (now : Moment) :
    (p.putBack x now).places.Perm p.places := by
  have hback : (p.idle.map (·.id) ++ [x.id] ++ p.active.erase x.id).Perm (p.idle.map (·.id) ++ p.active) := by
    rw [List.append_assoc]
    exact ((List.perm_cons_erase hx).symm).append_left _
  simpa [places, putBack, release] using hback

theorem Step.places {now : Moment} {p q : Pool T} (h : p.Step now q) :
    q.number = p.number ∧ p.issued ≤ q.issued ∧
      ∀ id ∈ q.places, id ∈ p.places ∨ id = ⟨p.number, p.issued⟩ ∧ q.issued = p.issued + 1 := by
  cases h with
  | take hc hi =>
    exact ⟨rfl, Nat.le_refl _, fun id hid => .inl ((places_take hi).subset hid)⟩
  | reserve hc hi hr =>
    refine ⟨rfl, Nat.le_succ _, fun id hid => ?_⟩
    simp only [Pool.places, Pool.reserve, hi, List.map_nil, List.nil_append, List.mem_cons] at hid ⊢
    exact hid.symm.imp_right fun he => ⟨he, trivial⟩
  | release id' =>
    refine ⟨rfl, Nat.le_refl _, fun id hid => .inl ?_⟩
    exact ((List.Sublist.refl _).append List.erase_sublist).subset hid
  | @putBack x clock hx =>
    refine ⟨rfl, Nat.le_refl _, fun id hid => .inl ?_⟩
    apply (places_putBack hx now).subset
    exact (((evict_sublist _ clock).map _).append (List.Sublist.refl _)).subset hid
  | evict clock =>
    refine ⟨rfl, Nat.le_refl _, fun id hid => .inl ?_⟩
    exact (((evict_sublist p clock).map _).append (List.Sublist.refl _)).subset hid
  | close =>
    exact ⟨rfl, Nat.le_refl _, fun id hid => .inl (List.mem_append_right _ hid)⟩

theorem Issued.of_create {settings : PoolSettings} {number : Nat} {p : Pool T}
    (h : create settings number = .ok p) : p.Issued := by
  rw [eq_of_create h]
  exact fun id hid => absurd hid List.not_mem_nil

theorem Issued.step {now : Moment} {p q : Pool T} (h : p.Issued) (hs : p.Step now q) : q.Issued := by
  obtain ⟨hn, hi, hp⟩ := hs.places
  intro id hid
  rw [hn]
  rcases hp id hid with hid | ⟨rfl, hq⟩
  · exact ⟨(h id hid).1, Nat.lt_of_lt_of_le (h id hid).2 hi⟩
  · exact ⟨rfl, hq ▸ Nat.lt_succ_self _⟩

/-- What comes of a pool by steps of one moment. -/
abbrev Reaches (now : Moment) : Pool T → Pool T → Prop := Relation.ReflTransGen (Step now)

theorem Issued.reaches {now : Moment} {p q : Pool T} (h : p.Issued) (hr : p.Reaches now q) : q.Issued := by
  induction hr with
  | refl => exact h
  | tail _ hs ih => exact ih.step hs

theorem always_disposeAll {P : Pool T → Prop} {p : Pool T} (hp : P p) (r : α)
    (l : List (IdleEntry T)) : (p.disposeAll r l).Always P := by
  induction l with
  | nil => exact hp
  | cons e rest ih => exact ⟨hp, ih⟩

theorem always_handOut {P : Pool T → Prop} {p : Pool T} {x : Pooled T}
    {otherwise : Pool T → Failure → Exchange T (Outcome (Pooled T))} (hp : P p) (hr : P (p.release x.id))
    (ho : ∀ f, (otherwise (p.release x.id) f).Always P) : (p.handOut x otherwise).Always P := by
  refine ⟨hp, fun tested => ?_⟩
  cases tested with
  | ok u => exact hp
  | error b =>
    cases b with
    | failed f => exact ⟨hr, ho f⟩
    | aborted => exact ⟨hr, hr⟩

theorem always_handOutNew {now : Moment} {start p : Pool T} (hs : Reaches now start p)
    (hc : p.closed = false) (hi : p.idle = []) (hr : p.hasRoom = true) :
    p.handOutNew.Always (Reaches now start) := by
  have hreserve : Reaches now start p.reserve.2 := hs.tail (.reserve hc hi hr)
  have hrelease : Reaches now start (p.reserve.2.release p.reserve.1) := hreserve.tail (.release _ _)
  refine ⟨hreserve, fun made => ?_⟩
  cases made with
  | ok object => exact always_handOut hreserve hrelease fun _ => hrelease
  | error b => exact hrelease

theorem release_take (p : Pool T) (l : List (IdleEntry T)) (id : EntryId) :
    ({ p with idle := l, active := id :: p.active } : Pool T).release id = { p with idle := l } := by
  unfold release
  rw [List.erase_cons_head]

theorem always_borrowFrom {now : Moment} {start p : Pool T} (hc : p.closed = false)
    (l : List (IdleEntry T)) (hs : Reaches now start { p with idle := l }) :
    (p.borrowFrom l).Always (Reaches now start) := by
  induction l with
  | nil =>
    by_cases hroom : ({ p with idle := [] } : Pool T).hasRoom = true
    · simp only [borrowFrom, hroom, if_true]
      exact always_handOutNew hs hc rfl hroom
    · simp only [borrowFrom, hroom]
      exact hs
  | cons oldest rest ih =>
    have htake : Reaches now start { p with idle := rest, active := oldest.id :: p.active } :=
      hs.tail (.take hc rfl)
    have hrest : Reaches now start { p with idle := rest } :=
      release_take p rest oldest.id ▸ htake.tail (.release _ oldest.id)
    refine always_handOut htake ?_ fun _ => ih hrest
    rw [release_take]
    exact hrest

theorem always_borrow (now : Moment) (p : Pool T) : p.borrow.Always (Reaches now p) := by
  unfold borrow
  split
  · exact .refl
  · next hc => exact always_borrowFrom (by simpa using hc) p.idle .refl

theorem always_giveBack (p : Pool T) (x : Pooled T) (clock : Clock) :
    (p.giveBack x clock).Always (Reaches clock.now p) := by
  unfold giveBack
  split
  · next hx => exact always_disposeAll (.single (.putBack clock.later hx)) _ _
  · exact ⟨.refl, .refl⟩

theorem always_trim (now : Moment) (p : Pool T) (clock : Clock) :
    (p.trim clock).Always (Reaches now p) :=
  always_disposeAll (.single (.evict p clock)) _ _

theorem always_shutDown (now : Moment) (p : Pool T) : p.shutDown.Always (Reaches now p) :=
  always_disposeAll (.single (.close p)) _ _

/-- What can become of a new pool by the requests made to it, and the moment when the last one began. The
objects given back need not be its own, and requests that others have under way may take their steps in
between. -/
inductive Run (settings : PoolSettings) (number : Nat) : Pool T → Moment → Prop
  | create {p} (now : Moment) : Pool.create settings number = .ok p → Run settings number p now
  | borrow {p now calls q r} : Run settings number p now → p.borrow.Ends calls q r → Run settings number q now
  | giveBack {p now calls q r} (x : Pooled T) (clock : Clock) : Run settings number p now → now ≤ clock.now →
      (p.giveBack x clock).Ends calls q r → Run settings number q clock.now
  | trim {p now calls q r} (clock : Clock) : Run settings number p now → now ≤ clock.now →
      (p.trim clock).Ends calls q r → Run settings number q clock.now
  | shutDown {p now calls q r} : Run settings number p now → p.shutDown.Ends calls q r →
      Run settings number q now
  | meanwhile {p now t q} : Run settings number p now → now ≤ t → p.Step t q → Run settings number q t

end Pool

end Provisioning
