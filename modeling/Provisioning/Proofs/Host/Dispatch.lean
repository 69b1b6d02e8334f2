import Provisioning.Proofs.Host.Session

/-! Dispatch. A request leases a connector for as long as it takes. Whatever comes of it, the places in use of every
pool are those that were in use before, a connector that was constructed for the request is disposed of, and one
that was borrowed is idle in its pool again or disposed of: `perform_releases`. -/

namespace Provisioning

variable {World AnyConfig ρ : Type}

namespace Depot

def placesIn (d : Depot World AnyConfig) (number : Nat) : List EntryId :=
  (d.pools[number]?.map (·.pool.active)).getD []

def numActive (d : Depot World AnyConfig) (number : Nat) : Nat :=
  (d.pools[number]?.map (·.pool.statistics.active)).getD 0

theorem numActive_eq (d : Depot World AnyConfig) (number : Nat) :
    d.numActive number = (d.placesIn number).length := by
  unfold numActive placesIn
  cases d.pools[number]? with
  | none => rfl
  | some c => rfl

theorem placesIn_set {d : Depot World AnyConfig} {number : Nat} (hn : number < d.pools.length)
    (c : ConnectorPool World AnyConfig) :
    ({ d with pools := d.pools.set number c } : Depot _ _).placesIn number = c.pool.active := by
  unfold placesIn
  rw [List.getElem?_set_self hn]
  rfl

theorem SameBut.placesIn {numbers : List Nat} {d d' : Depot World AnyConfig} (h : SameBut numbers d d')
    {number : Nat} (hn : number ∉ numbers) : d'.placesIn number = d.placesIn number := by
  unfold Depot.placesIn
  rw [h.pools number hn]

def others (d : Depot World AnyConfig) (number : Nat) : List (ConnectorPool World AnyConfig) :=
  d.pools.eraseIdx number

theorem SameBut.others {number : Nat} {d d' : Depot World AnyConfig} (h : SameBut [number] d d') :
    d'.others number = d.others number := by
  refine List.ext_getElem? fun i => ?_
  unfold Depot.others
  rw [List.getElem?_eraseIdx, List.getElem?_eraseIdx]
  split
  · next hlt => exact h.pools i (by simpa using Nat.ne_of_lt hlt)
  · next hge => exact h.pools (i + 1) (by simpa using (by omega : i + 1 ≠ number))

end Depot

namespace Host

theorem world_of_poolFor {h h' : Host World AnyConfig} {r : Registration World AnyConfig} {c : ApiConfiguration}
    {found : Outcome (Option Nat)} (hp : poolFor r c h = (found, h')) : h'.world = h.world := by
  unfold poolFor at hp
  split at hp
  · cases hp
    rfl
  · cases hp
    rfl

theorem placesIn_of_poolFor {h h' : Host World AnyConfig} {r : Registration World AnyConfig}
    {c : ApiConfiguration} {found : Outcome (Option Nat)} (hp : poolFor r c h = (found, h')) (number : Nat) :
    h'.depot.placesIn number = h.depot.placesIn number := by
  unfold poolFor at hp
  have hfound := h.depot.poolFound r c
  generalize h.depot.poolFor r c = found at hfound hp
  cases hfound with
  | fresh pool _ _ _ hcreate =>
    cases hp
    have hempty : pool.active = [] := by rw [Pool.eq_of_create hcreate]
    simp only [Depot.placesIn, List.getElem?_append]
    split
    · rfl
    · next hlast =>
      rw [List.getElem?_eq_none (by omega : h.depot.pools.length ≤ number)]
      cases number - h.depot.pools.length with
      | zero => exact hempty
      | succ _ => rfl
  | _ =>
    cases hp
    rfl

theorem placesIn_borrow (number : Nat) (h : Host World AnyConfig) :
    (borrow number h).2.depot.placesIn number =
      (Pool.handedOut (borrow number h).1).map (·.id) ++ h.depot.placesIn number := by
  obtain ⟨now, hborrow⟩ := borrow_eq number h
  rw [hborrow]
  have hhandled := onPool_handled number Pool.borrow h
  generalize onPool number Pool.borrow h = ended at hhandled ⊢
  cases hhandled with
  | unknown => rfl
  | @run c _ _ _ hc hrun =>
    have hbefore : h.depot.placesIn number = c.pool.active := by rw [Depot.placesIn, hc]; rfl
    dsimp only
    rw [Depot.placesIn_set (List.getElem?_eq_some_iff.1 hc).1, hbefore]
    exact ((Pool.endsIn_borrow c.pool).run hrun).active

theorem placesIn_giveBack (number : Nat) (x : Pooled (Connector World)) (clock : Clock)
    (h : Host World AnyConfig) :
    (onPool number (fun p => p.giveBack x clock) h).2.depot.placesIn number =
      (h.depot.placesIn number).erase x.id := by
  have hhandled := onPool_handled number (fun p => p.giveBack x clock) h
  generalize onPool number (fun p => p.giveBack x clock) h = ended at hhandled ⊢
  cases hhandled with
  | unknown hc =>
    rw [Depot.placesIn, hc]
    rfl
  | @run c _ _ _ hc hrun =>
    have hbefore : h.depot.placesIn number = c.pool.active := by rw [Depot.placesIn, hc]; rfl
    dsimp only
    rw [Depot.placesIn_set (List.getElem?_eq_some_iff.1 hc).1, hbefore]
    exact ((Pool.endsIn_giveBack c.pool x clock).run hrun).active

end Host

/-- No operation keeps a place, whatever it comes to. -/
theorem Facade.placesIn_dispatch (f : Facade World AnyConfig) (o : Operation)
    (run : Hosted World → StateM World ρ) (h : Host World AnyConfig) (number : Nat) :
    (f.dispatch o run h).2.depot.placesIn number = h.depot.placesIn number := by
  by_cases ho : f.registration.capabilities.supports o = true
  case neg => rw [dispatch_of_unsupported (by simpa using ho)]
  obtain ⟨⟨outcome, h'⟩, hended⟩ : ∃ ended, Lease.acquire f h = ended := ⟨_, rfl⟩
  have hacquired := Lease.acquired f h
  rw [hended] at hacquired
  cases hacquired with
  | noPool b => rw [dispatch_of_error ho hended]
  | unbound b => rw [dispatch_of_error ho hended]
  | constructed config =>
    generalize (f.registration.create config h.world).1 = made at hended
    cases made with
    | error b => rw [dispatch_of_error ho hended]
    | ok connector =>
      rw [dispatch_of_ok ho hended]
      rfl
  | borrowed i h₁ hi =>
    have hborrow := Host.placesIn_borrow i h₁
    have hothers := Host.onPool_sameBut i Pool.borrow h₁
    rw [← Host.depot_borrow] at hothers
    rw [← Host.placesIn_of_poolFor hi]
    generalize Host.borrow i h₁ = ended at hended hborrow hothers
    obtain ⟨b | x, h₂⟩ := ended
    · rw [dispatch_of_error ho hended]
      by_cases hn : number = i
      · rw [hn]
        exact hborrow
      · exact hothers.placesIn (by simpa using hn)
    · rw [dispatch_of_ok ho hended]
      dsimp only [Lease.release]
      by_cases hn : number = i
      · rw [hn, Host.placesIn_giveBack]
        change (h₂.depot.placesIn i).erase x.id = _
        rw [hborrow]
        exact List.erase_cons_head _ _
      · rw [(Host.onPool_sameBut i _ _).placesIn (by simpa using hn)]
        exact hothers.placesIn (by simpa using hn)

theorem Host.others_poolFor {h h' : Host World AnyConfig} {r : Registration World AnyConfig}
    {c : ApiConfiguration} {number : Nat} (hp : poolFor r c h = (.ok (some number), h')) :
    h'.depot.others number = h.depot.others number := by
  unfold poolFor at hp
  have hfound := h.depot.poolFound r c
  generalize h.depot.poolFor r c = found at hfound hp
  cases hfound with
  | unpooled => cases hp
  | refused => cases hp
  | known =>
    cases hp
    rfl
  | fresh pool =>
    cases hp
    unfold Depot.others
    rw [List.eraseIdx_append_of_length_le (Nat.le_refl _), Nat.sub_self, List.eraseIdx_of_length_le (Nat.le_refl _)]
    exact List.append_nil _

theorem Lease.others_acquire {f : Facade World AnyConfig} {h h' : Host World AnyConfig} {number : Nat}
    (hp : f.poolNumber? h = (.ok (some number), h')) :
    (acquire f h).2.depot.others number = h.depot.others number := by
  have hacquired := acquired f h
  generalize acquire f h = ended at hacquired ⊢
  cases hacquired with
  | noPool => rfl
  | unbound => rfl
  | constructed => rfl
  | borrowed i h₁ hi =>
    cases hi.symm.trans hp
    rw [← Host.others_poolFor hp, Host.depot_borrow]
    exact (Host.onPool_sameBut number Pool.borrow h').others

theorem Facade.others_dispatch {f : Facade World AnyConfig} {h h' : Host World AnyConfig} {number : Nat}
    (hp : f.poolNumber? h = (.ok (some number), h')) (o : Operation) (run : Hosted World → StateM World ρ) :
    (f.dispatch o run h).2.depot.others number = h.depot.others number := by
  by_cases ho : f.registration.capabilities.supports o = true
  case neg => rw [dispatch_of_unsupported (by simpa using ho)]
  have hothers := Lease.others_acquire hp
  obtain ⟨⟨outcome, h₂⟩, hended⟩ : ∃ ended, Lease.acquire f h = ended := ⟨_, rfl⟩
  have hacquired := Lease.acquired f h
  rw [hended] at hacquired hothers
  cases hacquired with
  | noPool => rw [dispatch_of_error ho hended]
  | unbound => rw [dispatch_of_error ho hended]
  | constructed _ hnone => cases hnone.symm.trans hp
  | borrowed i h₁ hi =>
    cases hi.symm.trans hp
    generalize Host.borrow number h' = ended at hended hothers
    obtain ⟨b | x, h₂⟩ := ended
    · rw [dispatch_of_error ho hended]
      exact hothers
    · rw [dispatch_of_ok ho hended]
      exact (Host.onPool_sameBut number _ _).others.trans hothers

/-- An operation of a connector that is not pooled changes no pool, and gives up what it constructs. -/
theorem Facade.dispatch_unpooled {f : Facade (Watched World AnyConfig) AnyConfig} (hf : f.registration.IsWatched)
    (hr : f.registration.isPoolable = false) (o : Operation)
    {run : Hosted (Watched World AnyConfig) → StateM (Watched World AnyConfig) ρ}
    (hrun : ∀ hosted w, hosted.connector.Leaves Prod.snd → (run hosted w).2.2 = w.2)
    (h : Host (Watched World AnyConfig) AnyConfig) :
    (f.dispatch o run h).2.depot = h.depot ∧
      ((f.dispatch o run h).2.world.2 = h.world.2 ∨
        ∃ k, k.IsFor f.registration f.configuration.properties ∧
          (f.dispatch o run h).2.world.2 = (h.world.2.make k).giveUp h.world.2.made) := by
  by_cases ho : f.registration.capabilities.supports o = true
  case neg =>
    rw [dispatch_of_unsupported (by simpa using ho)]
    exact ⟨rfl, .inl rfl⟩
  obtain ⟨⟨outcome, h₂⟩, hended⟩ : ∃ ended, Lease.acquire f h = ended := ⟨_, rfl⟩
  have hacquired := Lease.acquired f h
  rw [hended] at hacquired
  cases hacquired with
  | noPool =>
    rw [dispatch_of_error ho hended]
    exact ⟨rfl, .inl rfl⟩
  | unbound =>
    rw [dispatch_of_error ho hended]
    exact ⟨rfl, .inl rfl⟩
  | constructed config _ hbind =>
    rcases hf.create hbind h.world with ⟨b, world, hcreate⟩ | ⟨base, world, k, hk, hcreate⟩
    · rw [hcreate] at hended
      rw [dispatch_of_error ho hended]
      exact ⟨rfl, .inl rfl⟩
    · rw [hcreate] at hended
      have hinstance : (base.numbered h.world.2.made : Connector (Watched World AnyConfig)).IsInstance :=
        ⟨base, _, rfl⟩
      rw [dispatch_of_ok ho hended]
      refine ⟨rfl, .inr ⟨k, hk, ?_⟩⟩
      dsimp only [Lease.release, Held.connector]
      rw [hinstance.dispose world, Connector.number_numbered, hrun _ _ hinstance.leaves]
  | borrowed i h₁ hi =>
    exact absurd (Host.mem_inUse_of_poolFor hi).1 (by simp [hr])

namespace Host

def idleIn (origin : World) (number : Nat) (h : Host (Watched World AnyConfig) AnyConfig) : List Nat :=
  (h.depot.pools[number]?.map (ConnectorPool.idle origin)).getD []

def idleElsewhere (origin : World) (number : Nat) (h : Host (Watched World AnyConfig) AnyConfig) : List Nat :=
  (h.depot.others number).flatMap (ConnectorPool.idle origin)

theorem idle_perm (origin : World) (number : Nat) (h : Host (Watched World AnyConfig) AnyConfig) :
    (h.idle origin).Perm (h.idleIn origin number ++ h.idleElsewhere origin number) := by
  unfold idle idleIn idleElsewhere Depot.others
  by_cases hn : number < h.depot.pools.length
  · have hperm := idle_set_perm origin hn h.depot.pools[number]
    rw [List.set_getElem_self] at hperm
    rw [List.getElem?_eq_getElem hn]
    exact hperm
  · rw [List.getElem?_eq_none (Nat.le_of_not_lt hn), List.eraseIdx_of_length_le (Nat.le_of_not_lt hn)]
    exact .refl _

namespace Sound

variable {origin : World} {shut : Prop} {outside : List (Held (Watched World AnyConfig))}
  {h h' : Host (Watched World AnyConfig) AnyConfig} {number n : Nat}

theorem balanced_idleIn (hs : h.Sound origin shut [] outside) (number : Nat) :
    h.world.2.Balanced (h.idleIn origin number ++
      (h.idleElsewhere origin number ++ outside.map fun x => x.connector.number origin)) := by
  rw [← List.append_assoc]
  exact hs.balanced.perm ((idle_perm origin number h).append_right _)

/-- Where only one pool is concerned, the instances idle in it and those made are idle in it or disposed of. -/
theorem count_eq_one (hs : h.Sound origin shut [] outside) (hs' : h'.Sound origin shut [] outside)
    (hothers : h'.depot.others number = h.depot.others number) (hn : n < h'.world.2.made)
    (hmine : n ∈ h.idleIn origin number ∨ h.world.2.made ≤ n) :
    (h'.idleIn origin number ++ h'.world.2.disposed).count n = 1 := by
  have hbefore := hs.balanced_idleIn number
  have hafter := hs'.balanced_idleIn number
  rw [idleElsewhere, hothers] at hafter
  refine hafter.count_eq_one hn fun helsewhere => ?_
  have hknown := hbefore.mem_iff.1 (List.mem_append_left _ (List.mem_append_right _ helsewhere))
  rcases hmine with hidle | hnew
  · have hnodup := (List.nodup_append.1 hbefore.nodup).1
    exact (List.nodup_append.1 hnodup).2.2 n hidle n helsewhere rfl
  · exact Nat.lt_irrefl _ (Nat.lt_of_lt_of_le hknown hnew)

/-- What is handed out of a pool was idle in it, or is new. -/
theorem idle_or_new {held : Held (Watched World AnyConfig)} (hs : h.Sound origin shut [] outside)
    (hs' : h'.Sound origin shut [] (held :: outside)) (hgrows : h.world.2.Grows h'.world.2)
    (hothers : h'.depot.others number = h.depot.others number) :
    held.connector.number origin ∈ h.idleIn origin number ∨ h.world.2.made ≤ held.connector.number origin := by
  refine or_iff_not_imp_right.2 fun hold => ?_
  have hbefore := (hs.balanced_idleIn number).mem_iff.2 (Nat.lt_of_not_le hold)
  have hafter := hs'.balanced_idleIn number
  rw [idleElsewhere, hothers, List.map_cons] at hafter
  have hnodup := (hafter.perm ((List.perm_middle.append_left _).trans List.perm_middle)).nodup
  rw [List.cons_append, List.nodup_cons, List.mem_append, List.mem_append, not_or, not_or] at hnodup
  obtain ⟨⟨-, helsewhere⟩, hdisposed⟩ := hnodup.1
  rcases List.mem_append.1 hbefore with hthere | hgone
  · exact (List.mem_append.1 hthere).resolve_right helsewhere
  · exact absurd (hgrows.disposed hgone) hdisposed

theorem grows_onPool {α : Type} (hs : h.Sound origin shut [] outside) (number : Nat)
    {request : Pool (Connector (Watched World AnyConfig)) → Exchange (Connector (Watched World AnyConfig)) α}
    {handedOut : α → List (Pooled (Connector (Watched World AnyConfig)))}
    (hh : ∀ c ∈ h.depot.pools, (request c.pool).Handles Connector.IsInstance handedOut) :
    h.world.2.Grows (onPool number request h).2.world.2 := by
  have hhandled := onPool_handled number request h
  generalize onPool number request h = ended at hhandled ⊢
  cases hhandled with
  | unknown => exact .refl _
  | run hc hrun =>
    have hmem := List.mem_of_getElem? hc
    exact Exchange.grows_run (ConnectorPool.numbers (hs.pools _ hmem).watched) (hh _ hmem) hrun

theorem grows_borrow (hs : h.Sound origin shut [] outside) (number : Nat) :
    h.world.2.Grows (Host.borrow number h).2.world.2 := by
  obtain ⟨now, hborrow⟩ := borrow_eq number h
  rw [hborrow]
  exact hs.grows_onPool number fun c hc => Pool.handles_borrow (hs.pools c hc).instances

theorem grows_giveBack {x : Pooled (Connector (Watched World AnyConfig))}
    (hs : h.Sound origin shut [] (.pooled number x :: outside)) (clock : Clock) :
    h.world.2.Grows (onPool number (fun p => p.giveBack x clock) h).2.world.2 := by
  have hfits : number < h.depot.pools.length ∧ x.object.IsInstance := hs.fits _ List.mem_cons_self
  exact hs.grows_onPool number fun c hc => Pool.handles_giveBack (hs.pools c hc).instances hfits.2 clock

end Sound

end Host

namespace Facade

/-- What becomes of an instance that is borrowed for a request. -/
theorem count_of_borrowed {origin : World} {shut : Prop} {outside : List (Held (Watched World AnyConfig))}
    {h h' : Host (Watched World AnyConfig) AnyConfig} (hs : h.Sound origin shut [] outside)
    {f : Facade (Watched World AnyConfig) AnyConfig} (hf : f.registration.IsWatched) {o : Operation}
    (ho : f.registration.capabilities.supports o = true)
    {run : Hosted (Watched World AnyConfig) → StateM (Watched World AnyConfig) ρ}
    (hrun : ∀ hosted w, hosted.connector.Leaves Prod.snd → (run hosted w).2.2 = w.2) {number : Nat}
    {x : Pooled (Connector (Watched World AnyConfig))} (hx : Lease.acquire f h = (.ok ⟨some (.pooled number x)⟩, h')) :
    ((f.dispatch o run h).2.idleIn origin number ++ (f.dispatch o run h).2.world.2.disposed).count
      (x.object.number origin) = 1 := by
  have hdispatch := hs.dispatch hf o run hrun
  obtain ⟨h₁, hnumber, hborrow⟩ := Lease.borrow_of_acquire hx
  have hsound₁ : h₁.Sound origin shut [] outside := hs.of_poolFor hf hnumber
  have hsound' : h'.Sound origin shut [] (.pooled number x :: outside) := by
    obtain ⟨outcome, h₂, hagain, hafter⟩ := hsound₁.borrow number
    cases hborrow.symm.trans hagain
    exact hafter
  have hgrows : h.world.2.Grows h'.world.2 := by
    have := hsound₁.grows_borrow number
    rwa [hborrow, Host.world_of_poolFor hnumber] at this
  have hothers : h'.depot.others number = h.depot.others number := by
    have := Lease.others_acquire hnumber
    rwa [hx] at this
  -- the connector does its work, and is given back as it was
  have hinstance : x.object.IsInstance := (hsound'.fits _ List.mem_cons_self).2
  have hworked := hsound'.world (hrun ⟨f.key, x.object⟩ h'.world hinstance.leaves)
  have hmade : x.object.number origin < h'.world.2.made :=
    hsound'.balanced.mem_iff.1 (by simp [Held.connector])
  have hkept : h'.world.2.made ≤ (f.dispatch o run h).2.world.2.made := by
    have hback := (hworked.grows_giveBack h'.now).made
    rw [dispatch_of_ok ho hx]
    rwa [hrun ⟨f.key, x.object⟩ h'.world hinstance.leaves] at hback
  exact hs.count_eq_one hdispatch (others_dispatch hnumber o run) (Nat.lt_of_lt_of_le hmade hkept)
    (hs.idle_or_new hsound' hgrows hothers)

end Facade

namespace Session

/-- What a dispatched call has released. Of a pool, only one instance may be disposed of, and what was idle or
made meanwhile is idle otherwise. -/
structure Releases (origin : World) (s : Session World AnyConfig) (f : Facade (Watched World AnyConfig) AnyConfig)
    (o : Operation) (after : Host (Watched World AnyConfig) AnyConfig) : Prop where
  active : ∀ number, after.depot.numActive number = s.host.depot.numActive number
  unpooled : f.registration.isPoolable = false → after.depot = s.host.depot ∧
    (after.world.2 = s.ledger ∨ ∃ k, k.IsFor f.registration f.configuration.properties ∧
      after.world.2 = (s.ledger.make k).giveUp s.ledger.made ∧ after.world.2.disposed.count s.ledger.made = 1)
  pooled : ∀ {number h'}, f.poolNumber? s.host = (.ok (some number), h') →
    ∀ n < after.world.2.made, n ∈ s.host.idleIn origin number ∨ s.ledger.made ≤ n →
      (after.idleIn origin number ++ after.world.2.disposed).count n = 1
  borrowed : f.registration.capabilities.supports o = true →
    ∀ {number x h'}, Lease.acquire f s.host = (.ok ⟨some (.pooled number x)⟩, h') →
      (after.idleIn origin number ++ after.world.2.disposed).count (x.object.number origin) = 1

/-- The body of the operation may do anything with the connector but give it up; in particular it may break down
at any moment. -/
theorem Sound.releases {w : World} {shut : Prop} {s : Session World AnyConfig} (hs : s.Sound w shut)
    {f : Facade (Watched World AnyConfig) AnyConfig} (hf : f ∈ s.facades) (o : Operation)
    {run : Hosted (Watched World AnyConfig) → StateM (Watched World AnyConfig) ρ}
    (hrun : ∀ hosted w, hosted.connector.Leaves Prod.snd → (run hosted w).2.2 = w.2) :
    s.Releases w f o (f.dispatch o run s.host).2 := by
  have hwatched := hs.facades f hf
  have hsound' := hs.host.dispatch hwatched o run hrun
  refine ⟨fun number => ?_, fun hr => ?_, fun {number h'} hnumber n hn hmine => ?_, fun ho {number x h'} hx => ?_⟩
  · rw [Depot.numActive_eq, Depot.numActive_eq, f.placesIn_dispatch]
  · obtain ⟨hdepot, hledger⟩ := Facade.dispatch_unpooled hwatched hr o hrun s.host
    refine ⟨hdepot, hledger.imp_right fun ⟨k, hk, hgone⟩ => ⟨k, hk, hgone, ?_⟩⟩
    have hnew : s.ledger.made ∉ s.ledger.disposed := fun hmem =>
      Nat.lt_irrefl _ (hs.host.balanced.mem_iff.1 (List.mem_append_right _ hmem))
    rw [hgone]
    exact List.count_cons_self.trans (congrArg (· + 1) (List.count_eq_zero.2 hnew))
  · exact hs.host.count_eq_one hsound' (Facade.others_dispatch hnumber o run) hn hmine
  · exact Facade.count_of_borrowed hs.host hwatched ho hrun hx

/-- Whatever the state of a host and whatever a connector does, a request releases what it acquired, and the
caller gets what the operation came to or why it was refused. The same holds of any other body that is
dispatched, at whatever point it breaks down. -/
theorem perform_releases {w : World} {s : Session World AnyConfig} (hs : Reaches (start w) s)
    {f : Facade (Watched World AnyConfig) AnyConfig} (hf : f ∈ s.facades) (r : Request ρ) :
    (f.registration.capabilities.supports r.operation = false →
      f.perform r s.host = (r.refused (.failed (.unsupportedOperation r.operation f.key)), s.host)) ∧
    (f.registration.capabilities.supports r.operation = true →
      (∀ {b h'}, Lease.acquire f s.host = (.error b, h') → f.perform r s.host = (r.refused b, h')) ∧
      ∀ {l h'}, Lease.acquire f s.host = (.ok l, h') → ∃ held, l.held? = some held ∧
        (f.perform r s.host).1 = (r.on ⟨f.key, held.connector⟩ h'.world).1) ∧
    s.Releases w f r.operation (f.perform r s.host).2 ∧
    ∀ {σ : Type} {o : Operation} {body : Hosted (Watched World AnyConfig) → StateM (Watched World AnyConfig) σ},
      (∀ hosted w, hosted.connector.Leaves Prod.snd → (body hosted w).2.2 = w.2) →
      s.Releases w f o (f.dispatch o body s.host).2 ∧
      ∀ {held h'}, f.registration.capabilities.supports o = true → Lease.acquire f s.host = (.ok ⟨some held⟩, h') →
        (f.dispatch o body s.host).1 = .ok (body ⟨f.key, held.connector⟩ h'.world).1 := by
  have hsound := (sound_start w).run hs
  refine ⟨fun ho => ?_, fun ho => ⟨fun {b h'} hb => ?_, fun {l h'} hl => ?_⟩, ?_, fun hbody => ⟨?_, fun ho ha => ?_⟩⟩
  · rw [Facade.perform_eq, Facade.dispatch_of_unsupported ho]
    rfl
  · rw [Facade.perform_eq, Facade.dispatch_of_error ho hb]
    rfl
  · rcases hsound.host.acquire (hsound.facades f hf) with ⟨b, h₂, hb, -⟩ | ⟨held, h₂, hheld, -⟩
    · cases hl.symm.trans hb
    · cases hl.symm.trans hheld
      refine ⟨held, rfl, ?_⟩
      rw [Facade.perform_eq, Facade.dispatch_of_ok ho hheld]
      rfl
  · rw [Facade.perform_eq, Facade.snd_settle]
    exact hsound.releases hf r.operation fun _ w hl => r.leaves_on hl w
  · exact hsound.releases hf _ hbody
  · rw [Facade.dispatch_of_ok ho ha]

/-- A connector that is pooled, and breaks down when it is tested. -/
def stumbler : Registration Unit Unit where
  key := default
  capabilities := .ofList [.pool, .test]
  bind _ := .ok ()
  create _ := pure { Connector.bare with test? := fun _ => some fun w => (.error .aborted, w) }

def stumblerFacade : Facade (Watched Unit Unit) Unit := ⟨stumbler.watched, { connector := default }⟩

/-- A body that breaks down before it asks the connector for anything. -/
def stumbles (_ : Hosted (Watched Unit Unit)) : StateM (Watched Unit Unit) (Outcome Unit) := pure (.error .aborted)

/-- The caller gets the breakdown, and the instance goes back to the pool that was made for it; the same
if the body breaks down before the connector is asked to test. -/
theorem perform_releases_breakdown :
    let s : Session Unit Unit := ⟨(Host.register stumbler.watched (start ()).host).2, [stumblerFacade], []⟩
    let after := (stumblerFacade.perform .test s.host).2
    Reaches (start ()) s ∧ stumblerFacade ∈ s.facades ∧
    (stumblerFacade.perform .test s.host).1 = .error .aborted ∧
    after.depot.numActive 0 = s.host.depot.numActive 0 ∧
    after.idleIn () 0 = [0] ∧ (after.idleIn () 0 ++ after.world.2.disposed).count 0 = 1 ∧
    (stumblerFacade.dispatch .test stumbles s.host).1 = .ok (.error .aborted) ∧
    (stumblerFacade.dispatch .test stumbles s.host).2.depot.numActive 0 = s.host.depot.numActive 0 := by
  intro s after
  have hreached : Reaches (start ()) s :=
    (Relation.ReflTransGen.single (.register stumbler)).tail (.newFacade (c := stumblerFacade.configuration) rfl)
  have hmember : stumblerFacade ∈ s.facades := List.mem_cons_self
  obtain ⟨-, -, hreleases, hbodies⟩ := perform_releases hreached hmember .test
  have hstumbles : ∀ hosted w, hosted.connector.Leaves Prod.snd → (stumbles hosted w).2.2 = w.2 := fun _ _ _ => rfl
  obtain ⟨hreleased, -⟩ := hbodies (o := .test) hstumbles
  exact ⟨hreached, hmember, rfl, hreleases.active 0, rfl, hreleases.pooled rfl 0 (by decide) (.inr (Nat.le_refl 0)),
    rfl, hreleased.active 0⟩

end Session

end Provisioning
