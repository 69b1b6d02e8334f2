import Provisioning.Depot
import Provisioning.Proofs.Frame
import Provisioning.Proofs.Pool.Contents

/-! Instances of connectors. Every instance gets a number when it is constructed, and a ledger beside the
world keeps how each was constructed and which were disposed of. The ledger is balanced if every number
that was given out belongs to an instance that is still there, or to one disposed of; a request to a pool
keeps it balanced (`Exchange.balanced_run`). -/

namespace Provisioning

structure Construction (World AnyConfig : Type) where
  registration : Registration World AnyConfig
  config : AnyConfig

/-- How each instance was constructed, in the order of their numbers, and what was disposed of, last first. -/
structure Ledger (World AnyConfig : Type) where
  constructions : List (Construction World AnyConfig) := []
  disposed : List Nat := []

variable {World AnyConfig T α : Type}

namespace Ledger

def made (l : Ledger World AnyConfig) : Nat := l.constructions.length

def make (l : Ledger World AnyConfig) (c : Construction World AnyConfig) : Ledger World AnyConfig :=
  { l with constructions := l.constructions ++ [c] }

def giveUp (l : Ledger World AnyConfig) (n : Nat) : Ledger World AnyConfig := { l with disposed := n :: l.disposed }

theorem made_make (l : Ledger World AnyConfig) (c : Construction World AnyConfig) :
    (l.make c).made = l.made + 1 := List.length_append

/-- Each number given out belongs to one of the instances that are there, or was given up, and only once. -/
def Balanced (l : Ledger World AnyConfig) (there : List Nat) : Prop :=
  (List.range l.made).Perm (there ++ l.disposed)

namespace Balanced

variable {l : Ledger World AnyConfig} {there : List Nat} {n : Nat}

theorem perm (h : l.Balanced there) {other : List Nat} (hp : there.Perm other) : l.Balanced other :=
  List.Perm.trans h (hp.append_right _)

theorem make (h : l.Balanced there) (c : Construction World AnyConfig) :
    (l.make c).Balanced (l.made :: there) := by
  have hrange : (List.range (l.make c).made).Perm (l.made :: List.range l.made) := by
    rw [made_make, List.range_succ]
    exact List.perm_append_singleton _ _
  exact hrange.trans (List.Perm.cons l.made h)

theorem giveUp (h : l.Balanced (n :: there)) : (l.giveUp n).Balanced there :=
  List.Perm.trans h List.perm_middle.symm

theorem nodup (h : l.Balanced there) : (there ++ l.disposed).Nodup :=
  (List.Perm.nodup_iff h).1 List.nodup_range

theorem mem_iff (h : l.Balanced there) : n ∈ there ++ l.disposed ↔ n < l.made := by
  rw [← List.Perm.mem_iff h, List.mem_range]

theorem count_eq_one {elsewhere : List Nat} (h : l.Balanced (there ++ elsewhere)) (hn : n < l.made)
    (he : n ∉ elsewhere) : (there ++ l.disposed).count n = 1 := by
  have hperm : (there ++ elsewhere ++ l.disposed).Perm (there ++ l.disposed ++ elsewhere) := by
    rw [List.append_assoc, List.append_assoc]
    exact List.perm_append_comm.append_left there
  have hmem := hperm.mem_iff.1 (h.mem_iff.2 hn)
  exact List.count_eq_one_of_mem (List.nodup_append.1 (hperm.nodup_iff.1 h.nodup)).1
    ((List.mem_append.1 hmem).resolve_right he)

end Balanced

structure Grows (l l' : Ledger World AnyConfig) : Prop where
  constructions : l.constructions <+: l'.constructions
  disposed : l.disposed ⊆ l'.disposed

theorem Grows.refl (l : Ledger World AnyConfig) : l.Grows l := ⟨List.prefix_refl _, List.Subset.refl _⟩

theorem Grows.trans {l l' l'' : Ledger World AnyConfig} (h : l.Grows l') (h' : l'.Grows l'') : l.Grows l'' :=
  ⟨h.constructions.trans h'.constructions, List.Subset.trans h.disposed h'.disposed⟩

theorem grows_make (l : Ledger World AnyConfig) (c : Construction World AnyConfig) : l.Grows (l.make c) :=
  ⟨List.prefix_append _ _, List.Subset.refl _⟩

theorem grows_giveUp (l : Ledger World AnyConfig) (n : Nat) : l.Grows (l.giveUp n) :=
  ⟨List.prefix_refl _, List.subset_cons_self _ _⟩

theorem Grows.made {l l' : Ledger World AnyConfig} (h : l.Grows l') : l.made ≤ l'.made := h.constructions.length_le

end Ledger

abbrev Watched (World AnyConfig : Type) := World × Ledger World AnyConfig

/-- The same connector as the instance of a number, which notes when it is disposed of. -/
def Connector.numbered (base : Connector World) (n : Nat) : Connector (Watched World AnyConfig) :=
  base.observed fun
    | .dispose, ledger => ledger.giveUp n
    | _, ledger => ledger

/-- The number of an instance: what it would note as disposed of. -/
def Connector.number (origin : World) (c : Connector (Watched World AnyConfig)) : Nat :=
  (c.dispose (origin, {})).2.2.disposed.headD 0

def Connector.IsInstance (c : Connector (Watched World AnyConfig)) : Prop := ∃ base n, c = numbered base n

namespace Connector

theorem number_numbered (origin : World) (base : Connector World) (n : Nat) :
    (base.numbered n : Connector (Watched World AnyConfig)).number origin = n := rfl

theorem leaves_numbered (base : Connector World) (n : Nat) :
    (base.numbered n : Connector (Watched World AnyConfig)).Leaves Prod.snd := by
  refine leaves_observed (fun ask ha ledger => ?_) base
  cases ask with
  | dispose => exact absurd rfl ha
  | _ => rfl

namespace IsInstance

variable {c : Connector (Watched World AnyConfig)}

theorem leaves (hc : c.IsInstance) : c.Leaves Prod.snd := by
  obtain ⟨base, n, rfl⟩ := hc
  exact leaves_numbered base n

theorem dispose (hc : c.IsInstance) (origin : World) (w : Watched World AnyConfig) :
    (c.dispose w).2.2 = w.2.giveUp (c.number origin) := by
  obtain ⟨base, n, rfl⟩ := hc
  rw [number_numbered]
  rfl

end IsInstance

end Connector

/-- The same registration, but the instances that it constructs are numbered, and the ledger tells that they are
its own. -/
def Registration.watched (r : Registration World AnyConfig) : Registration (Watched World AnyConfig) AnyConfig where
  key := r.key
  capabilities := r.capabilities
  bind := r.bind
  create config w :=
    match r.create config w.1 with
    | (.ok base, world) => (.ok (base.numbered w.2.made), world, w.2.make ⟨r, config⟩)
    | (.error b, world) => (.error b, world, w.2)

def Registration.IsWatched (r : Registration (Watched World AnyConfig) AnyConfig) : Prop := ∃ base, r = watched base

structure Construction.IsFor (k : Construction World AnyConfig)
    (r : Registration (Watched World AnyConfig) AnyConfig) (properties : Json) : Prop where
  registration : r = k.registration.watched
  config : r.bind properties = .ok k.config

/-- The ledger has it that the connector was constructed by the registration, for such properties. -/
def Registration.Constructed (r : Registration (Watched World AnyConfig) AnyConfig) (properties : Json)
    (l : Ledger World AnyConfig) (c : Connector (Watched World AnyConfig)) : Prop :=
  ∃ base n k, c = Connector.numbered base n ∧ l.constructions[n]? = some k ∧ k.IsFor r properties

namespace Registration.Constructed

variable {r : Registration (Watched World AnyConfig) AnyConfig} {properties : Json} {l l' : Ledger World AnyConfig}
  {c : Connector (Watched World AnyConfig)}

theorem isInstance (hc : r.Constructed properties l c) : c.IsInstance := by
  obtain ⟨base, n, k, rfl, -⟩ := hc
  exact ⟨base, n, rfl⟩

theorem mono (hc : r.Constructed properties l c) (hl : l.Grows l') : r.Constructed properties l' c := by
  obtain ⟨base, n, k, rfl, hk, hfor⟩ := hc
  obtain ⟨hn, rfl⟩ := List.getElem?_eq_some_iff.1 hk
  exact ⟨base, n, _, rfl, List.prefix_iff_getElem?.1 hl.constructions n hn, hfor⟩

theorem make {k : Construction World AnyConfig} (hk : k.IsFor r properties) (base : Connector World)
    (l : Ledger World AnyConfig) : r.Constructed properties (l.make k) (Connector.numbered base l.made) :=
  ⟨base, _, k, rfl, List.getElem?_concat_length, hk⟩

end Registration.Constructed

/-- Construction either fails, and the ledger stays as it is, or gives the instance of the next number. -/
theorem Registration.IsWatched.create {r : Registration (Watched World AnyConfig) AnyConfig} (hr : r.IsWatched)
    {properties : Json} {config : AnyConfig} (hb : r.bind properties = .ok config) (w : Watched World AnyConfig) :
    (∃ b world, r.create config w = (.error b, world, w.2)) ∨
      ∃ base world k, k.IsFor r properties ∧
        r.create config w = (.ok (Connector.numbered base w.2.made), world, w.2.make k) := by
  obtain ⟨r, rfl⟩ := hr
  cases hc : r.create config w.1 with
  | mk outcome world =>
    simp only [watched, hc]
    cases outcome with
    | error b => exact .inl ⟨b, world, rfl⟩
    | ok base => exact .inr ⟨base, world, ⟨r, config⟩, ⟨rfl, hb⟩, rfl⟩

/-- The owner of a pool constructs numbered instances in such ways, and only disposing of one is noted. -/
structure PoolOwner.Numbers (owner : PoolOwner (Watched World AnyConfig) (Connector (Watched World AnyConfig)))
    (ways : Construction World AnyConfig → Prop) : Prop where
  make : ∀ w, (∃ b world, owner.make w = (.error b, world, w.2)) ∨
    ∃ base world k, ways k ∧ owner.make w = (.ok (Connector.numbered base w.2.made), world, w.2.make k)
  test : ∀ {c}, Connector.IsInstance c → (owner.test c).Leaves Prod.snd
  dispose : ∀ {c}, Connector.IsInstance c → ∀ origin w,
    (owner.dispose c w).2.2 = w.2.giveUp (Connector.number origin c)

theorem ConnectorPool.numbers {c : ConnectorPool (Watched World AnyConfig) AnyConfig}
    (hc : c.registration.IsWatched) : c.owner.Numbers fun k => k.IsFor c.registration c.properties where
  make w := by
    change (∃ b world, (_ >>= _ : Call _ _) w = _) ∨ ∃ base world k, _ ∧ (_ >>= _ : Call _ _) w = _
    rw [Call.bind_apply]
    cases hb : c.registration.bind c.properties with
    | error b => exact .inl ⟨b, w.1, rfl⟩
    | ok config => exact hc.create hb w
  test hc := hc.leaves.checkAlive
  dispose hc origin w := hc.dispose origin w

def numbersOf (origin : World) (l : List (Pooled (Connector (Watched World AnyConfig)))) : List Nat :=
  l.map fun x => x.object.number origin

theorem numbersOf_append (origin : World) (l m : List (Pooled (Connector (Watched World AnyConfig)))) :
    numbersOf origin (l ++ m) = numbersOf origin l ++ numbersOf origin m := List.map_append

namespace Exchange

variable {owner : PoolOwner (Watched World AnyConfig) (Connector (Watched World AnyConfig))}
  {ways : Construction World AnyConfig → Prop} {e : Exchange (Connector (Watched World AnyConfig)) α}
  {handedOut : α → List (Pooled (Connector (Watched World AnyConfig)))}
  {w w' : Watched World AnyConfig} {q : Pool (Connector (Watched World AnyConfig))} {result : α}

/-- Where an instance is to be made, the exchange goes on with a failure or with the instance of the next number. -/
theorem run_make (ho : owner.Numbers ways) {p : Pool (Connector (Watched World AnyConfig))} {id : EntryId}
    {next : Outcome (Connector (Watched World AnyConfig)) → Exchange (Connector (Watched World AnyConfig)) α}
    (hrun : (make p id next).run owner w = ((q, result), w')) :
    (∃ b world, (next (.error b)).run owner (world, w.2) = ((q, result), w')) ∨
      ∃ base world k, ways k ∧
        (next (.ok (Connector.numbered base w.2.made))).run owner (world, w.2.make k) = ((q, result), w') := by
  have hrun' : (next (owner.make w).1).run owner (owner.make w).2 = ((q, result), w') := hrun
  rcases ho.make w with ⟨b, world, hw⟩ | ⟨base, world, k, hk, hw⟩
  · rw [hw] at hrun'
    exact .inl ⟨b, world, hrun'⟩
  · rw [hw] at hrun'
    exact .inr ⟨base, world, k, hk, hrun'⟩

/-- Of the instances in its care and those it makes, a request to a pool leaves there those that are
idle or handed out. -/
theorem balanced_run (ho : owner.Numbers ways) (origin : World) {number issued : Nat}
    {care : List (Pooled (Connector (Watched World AnyConfig)))} {elsewhere : List Nat}
    (ha : e.AccountsFor handedOut number issued care) (hh : e.Handles Connector.IsInstance handedOut)
    (hb : w.2.Balanced (numbersOf origin care ++ elsewhere)) (hrun : e.run owner w = ((q, result), w')) :
    w'.2.Balanced (numbersOf origin (q.stock ++ handedOut result) ++ elsewhere) ∧
      ∀ x ∈ q.stock ++ handedOut result, x.object.IsInstance := by
  -- an instance that is made joins those in care, and one that is disposed of leaves them
  induction e generalizing issued care w with
  | done p result =>
    cases hrun
    obtain ⟨-, -, hp⟩ := ha
    exact ⟨hb.perm ((hp.map _).append_right _), hh⟩
  | make p id next ih =>
    obtain ⟨-, hok, hfail⟩ := ha
    rcases run_make ho hrun with ⟨b, world, hrun'⟩ | ⟨base, world, k, -, hrun'⟩
    · exact ih (w := (world, w.2)) _ (hfail b) (hh.2 b) hb hrun'
    · exact ih (w := (world, w.2.make k)) _ (hok _) (hh.1 _ ⟨base, _, rfl⟩) (hb.make k) hrun'
  | test p x next ih =>
    have hrun' : (next (owner.test x.object w).1).run owner (owner.test x.object w).2 = ((q, result), w') := hrun
    refine ih _ (ha _) (hh.2 _) ?_ hrun'
    rw [show (owner.test x.object w).2.2 = w.2 from ho.test hh.1 w]
    exact hb
  | dispose p x next ih =>
    obtain ⟨rest, hp, hnext⟩ := ha
    have hrun' : next.run owner (owner.dispose x.object w).2 = ((q, result), w') := hrun
    refine ih hnext hh.2 ?_ hrun'
    rw [ho.dispose hh.1 origin w]
    exact (hb.perm ((hp.map _).append_right _)).giveUp

theorem grows_run (ho : owner.Numbers ways) (hh : e.Handles Connector.IsInstance handedOut)
    (hrun : e.run owner w = ((q, result), w')) : w.2.Grows w'.2 := by
  induction e generalizing w with
  | done p result =>
    cases hrun
    exact .refl _
  | make p id next ih =>
    rcases run_make ho hrun with ⟨b, world, hrun'⟩ | ⟨base, world, k, -, hrun'⟩
    · exact ih (w := (world, w.2)) _ (hh.2 b) hrun'
    · exact (w.2.grows_make k).trans (ih (w := (world, w.2.make k)) _ (hh.1 _ ⟨base, _, rfl⟩) hrun')
  | test p x next ih =>
    have hrun' : (next (owner.test x.object w).1).run owner (owner.test x.object w).2 = ((q, result), w') := hrun
    have hgrows := ih _ (hh.2 _) hrun'
    rwa [show (owner.test x.object w).2.2 = w.2 from ho.test hh.1 w] at hgrows
  | dispose p x next ih =>
    have hrun' : next.run owner (owner.dispose x.object w).2 = ((q, result), w') := hrun
    have hgrows := ih hh.2 hrun'
    rw [ho.dispose hh.1 w.1 w] at hgrows
    exact (w.2.grows_giveUp _).trans hgrows

/-- What a request to a pool leaves idle or hands out was constructed in the ways of its owner, if what was there
was. -/
theorem constructed_run {r : Registration (Watched World AnyConfig) AnyConfig} {properties : Json}
    (ho : owner.Numbers fun k => k.IsFor r properties) (hi : e.Handles Connector.IsInstance handedOut)
    (hh : e.Handles (r.Constructed properties w'.2) handedOut) (hrun : e.run owner w = ((q, result), w')) :
    ∀ x ∈ q.stock ++ handedOut result, r.Constructed properties w'.2 x.object := by
  -- the ledger at the end still tells of what is made on the way
  induction e generalizing w with
  | done p result =>
    cases hrun
    exact hh
  | make p id next ih =>
    rcases run_make ho hrun with ⟨b, world, hrun'⟩ | ⟨base, world, k, hk, hrun'⟩
    · exact ih _ (hi.2 b) (hh.2 b) hrun'
    · have hmade := Registration.Constructed.make hk base w.2
      have hnext := hi.1 _ hmade.isInstance
      exact ih _ hnext (hh.1 _ (hmade.mono (grows_run ho hnext hrun'))) hrun'
  | test p x next ih => exact ih _ (hi.2 _) (hh.2 _) hrun
  | dispose p x next ih => exact ih hi.2 hh.2 hrun

end Exchange

end Provisioning
