import Provisioning.Proofs.Pool.Borrowing

/-! Eviction. Objects go from the front of the queue of idle ones until the rest may stay, so what is kept is the
longest end of the queue that may stay as a whole: `keeps_longest_end`. Only the object in front is looked at; that
none behind it was idle for longer is what the order of the queue is for. -/

namespace Provisioning

variable {T α : Type}

def IdleEntry.age (e : IdleEntry T) (now : Moment) : Nat := now - e.idleSince

/-- How long an object may be idle if it is not needed, in the unit of moments. -/
def PoolSettings.ageLimit (settings : PoolSettings) : Nat := settings.minEvictableIdleTimeMs.toNat * 1000000

/-- No more objects may stay idle than are allowed, and none beyond those that have to, unless the first of them
has not been idle for too long. -/
structure MayStay (settings : PoolSettings) (now : Moment) (kept : List (IdleEntry T)) : Prop where
  few : kept.length ≤ settings.maxIdle.toNat
  needed_or_young : kept.length ≤ settings.minIdle.toNat ∨
    ∀ first ∈ kept.head?, first.age now ≤ settings.ageLimit

/-- A queue is split into what goes and the longest end that may stay. -/
structure Evicts (settings : PoolSettings) (now : Moment) (queue gone kept : List (IdleEntry T)) : Prop where
  split : queue = gone ++ kept
  mayStay : MayStay settings now kept
  longest : ∀ tail, tail <:+ queue → MayStay settings now tail → tail.length ≤ kept.length

theorem Evicts.unique {settings : PoolSettings} {now : Moment} {queue gone kept gone' kept' : List (IdleEntry T)}
    (h : Evicts settings now queue gone kept) (h' : Evicts settings now queue gone' kept') :
    gone' = gone ∧ kept' = kept := by
  have hle : kept'.length ≤ kept.length := h.longest kept' ⟨gone', h'.split.symm⟩ h'.mayStay
  have hge : kept.length ≤ kept'.length := h'.longest kept ⟨gone, h.split.symm⟩ h.mayStay
  exact List.append_inj' (h'.split.symm.trans h.split) (Nat.le_antisymm hle hge)

structure LeavesEnough (settings : PoolSettings) (now : Moment) (queue kept : List (IdleEntry T)) : Prop where
  needed : min queue.length settings.minIdle.toNat ≤ kept.length
  few : kept.length ≤ settings.maxIdle.toNat
  young : settings.minIdle.toNat < kept.length → ∀ e ∈ kept, e.age now ≤ settings.ageLimit

theorem mayStay_of_le {settings : PoolSettings} {now : Moment} {l : List (IdleEntry T)}
    (hsettings : settings.minIdle.toNat ≤ settings.maxIdle.toNat) (hl : l.length ≤ settings.minIdle.toNat) :
    MayStay settings now l :=
  ⟨Nat.le_trans hl hsettings, .inl hl⟩

theorem Evicts.leavesEnough {settings : PoolSettings} {now : Moment} {queue gone kept : List (IdleEntry T)}
    (h : Evicts settings now queue gone kept) (hsettings : settings.minIdle.toNat ≤ settings.maxIdle.toNat)
    (hordered : queue.Pairwise fun a b => a.idleSince ≤ b.idleSince) : LeavesEnough settings now queue kept where
  needed := by
    -- the last objects of the queue, as many as have to stay, are an end that may stay
    have hend : queue.drop (queue.length - settings.minIdle.toNat) <:+ queue := List.drop_suffix _ _
    have hlen : (queue.drop (queue.length - settings.minIdle.toNat)).length =
        min queue.length settings.minIdle.toNat := by
      rw [List.length_drop]
      omega
    have hstays : MayStay settings now (queue.drop (queue.length - settings.minIdle.toNat)) :=
      mayStay_of_le hsettings (hlen ▸ Nat.min_le_right _ _)
    exact hlen ▸ h.longest _ hend hstays
  few := h.mayStay.few
  young := by
    intro hmany e he
    have hyoung := h.mayStay.needed_or_young.resolve_left (Nat.not_le_of_lt hmany)
    have hkept : kept.Pairwise fun a b => a.idleSince ≤ b.idleSince :=
      hordered.sublist (h.split ▸ List.sublist_append_right gone kept)
    cases kept with
    | nil => cases he
    | cons first rest =>
      have hfirst : first.age now ≤ settings.ageLimit := hyoung first rfl
      have hsince : first.idleSince ≤ e.idleSince := by
        rcases List.mem_cons.1 he with rfl | hrest
        · exact Nat.le_refl _
        · exact (List.pairwise_cons.1 hkept).1 e hrest
      exact Nat.le_trans (Nat.sub_le_sub_left hsince now) hfirst

namespace Pool

variable {p : Pool T}

/-- As long as the pool is open, nothing is surplus in what may stay. -/
theorem hasSurplus_eq_false_iff (hopen : p.closed = false) (now : Moment) (l : List (IdleEntry T)) :
    p.hasSurplus now l = false ↔ MayStay p.settings now l := by
  cases l with
  | nil => exact iff_of_true rfl ⟨Nat.zero_le _, .inl (Nat.zero_le _)⟩
  | cons oldest rest =>
    have hage : now - oldest.idleSince > p.settings.minEvictableIdleTimeMs.toNat * 1000000 ↔
        ¬ oldest.age now ≤ p.settings.ageLimit := Nat.not_le.symm
    constructor
    · intro h
      simp only [hasSurplus, hopen, Bool.or_eq_false_iff, Bool.and_eq_false_iff, decide_eq_false_iff_not,
        hage, not_not] at h
      refine ⟨Nat.le_of_not_lt h.1.2, h.2.imp Nat.le_of_not_lt fun hyoung first hfirst => ?_⟩
      cases hfirst
      exact hyoung
    · rintro ⟨hfew, hstays⟩
      simp only [hasSurplus, hopen, Bool.or_eq_false_iff, Bool.and_eq_false_iff, decide_eq_false_iff_not,
        hage, not_not]
      exact ⟨⟨trivial, Nat.not_lt_of_le hfew⟩, hstays.imp Nat.not_lt_of_le fun hyoung => hyoung oldest rfl⟩

theorem evicts_splitSurplus (hopen : p.closed = false) (now : Moment) (l : List (IdleEntry T)) :
    Evicts p.settings now l (p.splitSurplus (.stopped now) l).1 (p.splitSurplus (.stopped now) l).2 := by
  induction l with
  | nil => exact ⟨rfl, ⟨Nat.zero_le _, .inl (Nat.zero_le _)⟩, fun tail htail _ => htail.length_le⟩
  | cons oldest rest ih =>
    unfold splitSurplus
    split
    · next hgoes =>
      refine ⟨congrArg (oldest :: ·) ih.split, ih.mayStay, fun tail htail hstays => ?_⟩
      -- the whole queue cannot stay, so an end that may stay is one of the rest
      rcases List.suffix_cons_iff.1 htail with rfl | htail
      · have hkept : p.hasSurplus (Clock.stopped now).now (oldest :: rest) = false :=
          (hasSurplus_eq_false_iff hopen now _).2 hstays
        exact absurd hgoes (by simp [hkept])
      · exact ih.longest tail htail hstays
    · next hstays =>
      have hwhole : MayStay p.settings now (oldest :: rest) :=
        (hasSurplus_eq_false_iff hopen now _).1 (Bool.eq_false_iff.2 hstays)
      exact ⟨rfl, hwhole, fun tail htail _ => htail.length_le⟩

theorem evicts_iff (hopen : p.closed = false) {now : Moment} {queue gone kept : List (IdleEntry T)} :
    Evicts p.settings now queue gone kept ↔ p.splitSurplus (.stopped now) queue = (gone, kept) := by
  have hsplit := evicts_splitSurplus hopen now queue
  constructor
  · intro h
    obtain ⟨hgone, hkept⟩ := h.unique hsplit
    exact Prod.ext hgone hkept
  · intro h
    rwa [h] at hsplit

theorem ends_disposeAll_iff {q : Pool T} {r r' : α} {l : List (IdleEntry T)} {calls : List (OwnerCall T)} :
    (p.disposeAll r l).Ends calls q r' ↔ calls = l.map (.dispose ·.toPooled) ∧ q = p ∧ r' = r := by
  induction l generalizing calls with
  | nil => exact Exchange.ends_done_iff
  | cons e rest ih =>
    unfold disposeAll
    rw [Exchange.ends_dispose_iff]
    constructor
    · rintro ⟨calls, rfl, hrest⟩
      obtain ⟨rfl, hq, hr⟩ := ih.1 hrest
      exact ⟨rfl, hq, hr⟩
    · rintro ⟨rfl, hq, hr⟩
      exact ⟨_, rfl, ih.2 ⟨rfl, hq, hr⟩⟩

theorem ends_evict_iff (hopen : p.closed = false) {now : Moment} {calls : List (OwnerCall T)} {q : Pool T}
    {r r' : α} :
    ((p.evict (.stopped now)).2.disposeAll r (p.evict (.stopped now)).1).Ends calls q r' ↔
      ∃ gone kept, Evicts p.settings now p.idle gone kept ∧ calls = gone.map (.dispose ·.toPooled) ∧
        q = { p with idle := kept } ∧ r' = r := by
  rw [ends_disposeAll_iff]
  constructor
  · rintro ⟨rfl, rfl, rfl⟩
    exact ⟨_, _, evicts_splitSurplus hopen now p.idle, rfl, rfl, rfl⟩
  · rintro ⟨gone, kept, hevicts, rfl, rfl, rfl⟩
    have hsplit := (evicts_iff hopen).1 hevicts
    unfold evict
    rw [hsplit]
    exact ⟨rfl, rfl, rfl⟩

/-- A pool is made only with settings by which what has to stay idle may. -/
theorem minIdle_le_of_validate {settings : PoolSettings} (h : settings.validate = .ok ()) :
    settings.minIdle.toNat ≤ settings.maxIdle.toNat := by
  unfold PoolSettings.validate at h
  split at h
  · cases h
  · split at h
    · cases h
    · next hle => exact Nat.le_of_not_lt hle

theorem Run.minIdle_le {settings : PoolSettings} {number : Nat} {now : Moment} (h : Run settings number p now) :
    settings.minIdle.toNat ≤ settings.maxIdle.toNat := by
  induction h with
  | create _ hp =>
    cases hv : settings.validate with
    | error failure => rw [Pool.create, hv] at hp; cases hp
    | ok u => exact minIdle_le_of_validate hv
  | borrow _ _ ih => exact ih
  | giveBack _ _ _ _ _ ih => exact ih
  | trim _ _ _ _ ih => exact ih
  | shutDown _ _ ih => exact ih
  | meanwhile _ _ _ ih => exact ih

/-- An open pool keeps the longest end of its queue that may stay, and disposes of what stands before that,
the oldest first. -/
theorem keeps_longest_end {settings : PoolSettings} {number : Nat} {t : Moment} (h : Run settings number p t)
    (hopen : p.closed = false) {now : Moment} (hnow : t ≤ now) :
    (∀ calls q r, (p.trim (.stopped now)).Ends calls q r ↔
      ∃ gone kept, Evicts settings now p.idle gone kept ∧ calls = gone.map (.dispose ·.toPooled) ∧
        q = { p with idle := kept }) ∧
    (∀ x : Pooled T, x.id ∈ p.active → ∀ calls q r, (p.giveBack x (.stopped now)).Ends calls q r ↔
      ∃ gone kept, Evicts settings now (p.idle ++ [{ x with idleSince := now }]) gone kept ∧
        calls = gone.map (.dispose ·.toPooled) ∧ q = { p.release x.id with idle := kept } ∧ r = .ok ()) ∧
    ∀ queue, (queue = p.idle ∨ ∃ x : Pooled T, x.id ∈ p.active ∧ queue = p.idle ++ [{ x with idleSince := now }]) →
      ∀ gone kept, Evicts settings now queue gone kept →
        (gone.map (·.id)).Nodup ∧ LeavesEnough settings now queue kept := by
  have hinvariant := h.invariant.later hnow
  obtain rfl := hinvariant.settings_eq
  refine ⟨fun calls q r => ?_, fun x hx calls q r => ?_, fun queue hqueue gone kept hevicts => ?_⟩
  · exact (ends_evict_iff hopen).trans (by simp)
  · unfold giveBack
    rw [if_pos hx]
    exact ends_evict_iff (p := p.putBack x now) hopen
  · -- both queues are those of pools in order
    have horderly : ∃ q : Pool T, q.idle = queue ∧ Orderly p.settings now q := by
      rcases hqueue with rfl | ⟨x, hx, rfl⟩
      · exact ⟨p, rfl, hinvariant.toOrderly⟩
      · exact ⟨p.putBack x now, rfl, hinvariant.putBack (Nat.le_refl now) hx⟩
    obtain ⟨q, rfl, horderly⟩ := horderly
    refine ⟨?_, hevicts.leavesEnough h.minIdle_le horderly.ordered⟩
    have hsublist : (gone.map (·.id)).Sublist q.places := by
      unfold places
      rw [hevicts.split, List.map_append, List.append_assoc]
      exact List.sublist_append_left _ _
    exact horderly.distinct.sublist hsublist

/-- When the third object comes back, the first is one too many, and the second was idle for too long. -/
theorem keeps_longest_end_third_object :
    let third : Pooled Int64 := ⟨⟨0, 2⟩, 3⟩
    let kept : List (IdleEntry Int64) := [{ third with idleSince := 1000007 }]
    Run fewIdle 0 twoIdle 6 ∧ twoIdle.closed = false ∧ (6 : Moment) ≤ 1000007 ∧ third.id ∈ twoIdle.active ∧
    (twoIdle.giveBack third (.stopped 1000007)).Ends [.dispose ⟨⟨0, 0⟩, 1⟩, .dispose ⟨⟨0, 1⟩, 2⟩]
      { twoIdle.release third.id with idle := kept } (.ok ()) ∧
    LeavesEnough fewIdle 1000007 (twoIdle.idle ++ kept) kept := by
  intro third kept
  have hnow : (6 : Moment) ≤ 1000007 := by decide
  have hthird : third.id ∈ twoIdle.active := by decide
  obtain ⟨-, hback, hleft⟩ := keeps_longest_end run_twoIdle rfl hnow
  have hevicts : Evicts fewIdle 1000007 (twoIdle.idle ++ kept) twoIdle.idle kept :=
    (evicts_iff (p := twoIdle) rfl).2 rfl
  exact ⟨run_twoIdle, rfl, hnow, hthird, (hback third hthird _ _ _).2 ⟨_, _, hevicts, rfl, rfl, rfl⟩,
    (hleft _ (.inr ⟨third, hthird, rfl⟩) _ _ hevicts).2⟩

end Pool

end Provisioning
