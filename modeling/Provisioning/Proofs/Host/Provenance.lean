import Provisioning.Proofs.Host.Session

/-! Provenance. A pool constructs its connectors with the registration that it was made with, and is shared by
all facades of one pool key, whenever these were made. So what a facade runs on was constructed by its own
registration where there is no pool, and by that of some facade with the same pool key where there is one:
`runs_on_same_pool_key`. -/

namespace Provisioning

variable {World AnyConfig T α : Type}

namespace Depot

/-- Every pool of the first depot is there in the second, and makes its connectors in the same way. -/
def Keeps (d d' : Depot World AnyConfig) : Prop :=
  ∀ (i : Nat) (p : ConnectorPool World AnyConfig), d.pools[i]? = some p → ∃ p' : ConnectorPool World AnyConfig,
    d'.pools[i]? = some p' ∧ p'.registration = p.registration ∧ p'.properties = p.properties

theorem keeps_set {d : Depot World AnyConfig} {number : Nat} {c : ConnectorPool World AnyConfig}
    (hc : d.pools[number]? = some c) (q : Pool (Connector World)) :
    d.Keeps { d with pools := d.pools.set number { c with pool := q } } := by
  intro i p hp
  by_cases hi : number = i
  · subst hi
    obtain rfl : c = p := Option.some.inj (hc.symm.trans hp)
    exact ⟨{ c with pool := q }, by simp [(List.getElem?_eq_some_iff.1 hc).1], rfl, rfl⟩
  · exact ⟨p, by rw [List.getElem?_set_ne hi]; exact hp, rfl, rfl⟩

theorem keeps_append (d : Depot World AnyConfig) (c : ConnectorPool World AnyConfig)
    (inUse : List (PoolKey × Nat)) : d.Keeps { d with pools := d.pools ++ [c], inUse } := by
  intro i p hp
  refine ⟨p, ?_, rfl, rfl⟩
  rw [List.getElem?_append_left (List.getElem?_eq_some_iff.1 hp).1]
  exact hp

end Depot

structure ConnectorPool.MadeFor (p : ConnectorPool World AnyConfig) (f : Facade World AnyConfig) : Prop where
  registration : p.registration = f.registration
  properties : p.properties = f.configuration.properties

def ConnectorPool.Constructed (p : ConnectorPool (Watched World AnyConfig) AnyConfig) :
    Ledger World AnyConfig → Connector (Watched World AnyConfig) → Prop :=
  p.registration.Constructed p.properties

/-- What is held out of a pool was constructed by that pool. -/
def Held.From (d : Depot (Watched World AnyConfig) AnyConfig) (l : Ledger World AnyConfig) :
    Held (Watched World AnyConfig) → Prop
  | pooled number x => ∃ p, d.pools[number]? = some p ∧ p.Constructed l x.object
  | own c => c.IsInstance

theorem Held.From.mono {d d' : Depot (Watched World AnyConfig) AnyConfig} {l l' : Ledger World AnyConfig}
    {held : Held (Watched World AnyConfig)} (hh : held.From d l) (hk : d.Keeps d') (hl : l.Grows l') :
    held.From d' l' := by
  cases held with
  | pooled number x =>
    obtain ⟨p, hp, hx⟩ := hh
    obtain ⟨p', hp', hr, hproperties⟩ := hk _ p hp
    refine ⟨p', hp', ?_⟩
    rw [ConnectorPool.Constructed, hr, hproperties]
    exact hx.mono hl
  | own c => exact hh

theorem Held.From.isInstance {d : Depot (Watched World AnyConfig) AnyConfig} {l : Ledger World AnyConfig}
    {held : Held (Watched World AnyConfig)} (hh : held.From d l) : held.connector.IsInstance := by
  cases held with
  | pooled number x =>
    obtain ⟨p, -, hx⟩ := hh
    exact hx.isInstance
  | own c => exact hh

/-- What pools hold, and what is held out of them, was constructed by these pools, and every pool in use was
made for one of the callers with its key. -/
structure Host.Traced (callers : List (Facade (Watched World AnyConfig) AnyConfig))
    (outside : List (Held (Watched World AnyConfig))) (h : Host (Watched World AnyConfig) AnyConfig) : Prop where
  watched : ∀ p ∈ h.depot.pools, p.registration.IsWatched
  stock : ∀ p ∈ h.depot.pools, ∀ x ∈ p.pool.stock, p.Constructed h.world.2 x.object
  outside : ∀ held ∈ outside, held.From h.depot h.world.2
  inUse : ∀ {key i}, (key, i) ∈ h.depot.inUse →
    ∃ p, h.depot.pools[i]? = some p ∧ ∃ g ∈ callers, p.MadeFor g ∧ PoolKey.of g.configuration = key

namespace Host.Traced

variable {callers : List (Facade (Watched World AnyConfig) AnyConfig)}
  {outside : List (Held (Watched World AnyConfig))} {h h' : Host (Watched World AnyConfig) AnyConfig}
  {f : Facade (Watched World AnyConfig) AnyConfig}

theorem caller (hd : h.Traced callers outside) (f : Facade (Watched World AnyConfig) AnyConfig) :
    h.Traced (f :: callers) outside :=
  { hd with
    inUse := fun hi => by
      obtain ⟨p, hp, g, hg, hmade⟩ := hd.inUse hi
      exact ⟨p, hp, g, List.mem_cons_of_mem _ hg, hmade⟩ }

theorem fewer (hd : h.Traced callers outside) {kept : List (Held (Watched World AnyConfig))}
    (hk : kept ⊆ outside) : h.Traced callers kept :=
  { hd with outside := fun held hh => hd.outside held (hk hh) }

theorem withdraw (hd : h.Traced callers outside) {kept : List (PoolKey × Nat)} (hk : kept ⊆ h.depot.inUse)
    (closed : Bool) :
    ({ h with depot := { h.depot with inUse := kept, closed } } : Host _ _).Traced callers outside :=
  { hd with inUse := fun hi => hd.inUse (hk hi) }

theorem world (hd : h.Traced callers outside) {w : Watched World AnyConfig} (hw : h.world.2.Grows w.2) :
    ({ h with world := w } : Host _ _).Traced callers outside :=
  { hd with
    stock := fun p hp x hx => (hd.stock p hp x hx).mono hw
    outside := fun held hh => (hd.outside held hh).mono (fun _ p hp => ⟨p, hp, rfl, rfl⟩) hw }

theorem inUse_of_keeps {d : Depot (Watched World AnyConfig) AnyConfig} (hd : h.Traced callers outside)
    (hk : h.depot.Keeps d) {key : PoolKey} {i : Nat} (hi : (key, i) ∈ h.depot.inUse) :
    ∃ p, d.pools[i]? = some p ∧ ∃ g ∈ callers, p.MadeFor g ∧ PoolKey.of g.configuration = key := by
  obtain ⟨p, hp, g, hg, hmade, hkey⟩ := hd.inUse hi
  obtain ⟨p', hp', hr, hproperties⟩ := hk _ p hp
  exact ⟨p', hp', g, hg, ⟨hr.trans hmade.registration, hproperties.trans hmade.properties⟩, hkey⟩

/-- A request to a pool hands out what the pool constructed, if it handles only that and what is made. -/
theorem onPool (hd : h.Traced callers outside) (number : Nat)
    {request : Pool (Connector (Watched World AnyConfig)) → Exchange (Connector (Watched World AnyConfig)) α}
    {handedOut : α → List (Pooled (Connector (Watched World AnyConfig)))}
    (hh : ∀ c, h.depot.pools[number]? = some c → ∀ {P : Connector (Watched World AnyConfig) → Prop},
      (∀ x, c.Constructed h.world.2 x → P x) → (request c.pool).Handles P handedOut)
    {r? : Option α} (hran : Host.onPool number request h = (r?, h')) :
    h'.Traced callers (((r?.map handedOut).getD []).map (Held.pooled number) ++ outside) := by
  have hhandled := Host.onPool_handled number request h
  rw [hran] at hhandled
  cases hhandled with
  | unknown => exact hd
  | @run c q r w hc hrun =>
    have hnumbers := ConnectorPool.numbers (hd.watched c (List.mem_of_getElem? hc))
    have hinstances := hh c hc fun x hx => hx.isInstance
    have hgrows : h.world.2.Grows w.2 := Exchange.grows_run hnumbers hinstances hrun
    have hmade : ∀ x ∈ q.stock ++ handedOut r, c.Constructed w.2 x.object :=
      Exchange.constructed_run hnumbers hinstances (hh c hc fun x hx => hx.mono hgrows) hrun
    have hkeeps := Depot.keeps_set hc q
    refine ⟨fun p hp => ?_, fun p hp x hx => ?_, fun held hheld => ?_, fun hi => hd.inUse_of_keeps hkeeps hi⟩
    · rcases List.mem_or_eq_of_mem_set hp with hp | rfl
      · exact hd.watched p hp
      · exact hd.watched c (List.mem_of_getElem? hc)
    · rcases List.mem_or_eq_of_mem_set hp with hp | rfl
      · exact (hd.stock p hp x hx).mono hgrows
      · exact hmade x (List.mem_append_left _ hx)
    · rcases List.mem_append.1 hheld with hheld | hheld
      · obtain ⟨x, hx, rfl⟩ := List.mem_map.1 hheld
        have hself : ({ c with pool := q } : ConnectorPool _ _).Constructed w.2 x.object :=
          hmade x (List.mem_append_right _ hx)
        exact ⟨_, List.getElem?_set_self (List.getElem?_eq_some_iff.1 hc).1, hself⟩
      · exact (hd.outside held hheld).mono hkeeps hgrows

theorem onPool_nothing (hd : h.Traced callers outside) (number : Nat)
    {request : Pool (Connector (Watched World AnyConfig)) → Exchange (Connector (Watched World AnyConfig)) α}
    (hh : ∀ c, h.depot.pools[number]? = some c → ∀ {P : Connector (Watched World AnyConfig) → Prop},
      (∀ x, c.Constructed h.world.2 x → P x) → (request c.pool).Handles P fun _ => []) :
    (Host.onPool number request h).2.Traced callers outside := by
  cases hran : Host.onPool number request h with
  | mk r? h' =>
    have hafter := hd.onPool number hh hran
    cases r? with
    | none => exact hafter
    | some r => exact hafter

theorem stockOf (hd : h.Traced callers outside) {number : Nat} {c : ConnectorPool (Watched World AnyConfig) AnyConfig}
    (hc : h.depot.pools[number]? = some c) {P : Connector (Watched World AnyConfig) → Prop}
    (hP : ∀ x, c.Constructed h.world.2 x → P x) : ∀ x ∈ c.pool.stock, P x.object :=
  fun x hx => hP _ (hd.stock c (List.mem_of_getElem? hc) x hx)

theorem borrow (hd : h.Traced callers outside) {number : Nat}
    {outcome : Outcome (Pooled (Connector (Watched World AnyConfig)))} (hb : Host.borrow number h = (outcome, h')) :
    h'.Traced callers ((Pool.handedOut outcome).map (Held.pooled number) ++ outside) := by
  cases hran : Host.onPool number Pool.borrow h with
  | mk r? h₁ =>
    have hafter := hd.onPool number (fun c hc _ hP => Pool.handles_borrow (hd.stockOf hc hP)) hran
    unfold Host.borrow at hb
    rw [hran] at hb
    cases hb
    cases r? with
    | none => exact { hafter with }
    | some outcome => exact { hafter with }

theorem giveBack {number : Nat} {x : Pooled (Connector (Watched World AnyConfig))} {clock : Clock}
    (hd : h.Traced callers (.pooled number x :: outside)) :
    (Host.onPool number (fun p => p.giveBack x clock) h).2.Traced callers outside := by
  refine (hd.fewer (List.subset_cons_self _ _)).onPool_nothing number fun c hc _ hP => ?_
  obtain ⟨p, hp, hx⟩ := hd.outside _ List.mem_cons_self
  obtain rfl : c = p := Option.some.inj (hc.symm.trans hp)
  exact Pool.handles_giveBack (hd.stockOf hc hP) (hP _ hx) clock

theorem shutDownPools {numbers : List Nat} (hd : h.Traced callers outside) :
    (Host.shutDownPools numbers h).2.Traced callers outside := by
  induction numbers generalizing h with
  | nil => exact hd
  | cons number rest ih =>
    rw [Host.shutDownPools_cons]
    exact ih (hd.onPool_nothing number fun c hc _ hP => Pool.handles_shutDown (hd.stockOf hc hP))

theorem disposePools (hd : h.Traced callers outside) (key : ConnectorKey) :
    (Host.disposePools key h).2.Traced callers outside := by
  rw [Host.disposePools_eq]
  exact shutDownPools (hd.withdraw (fun _ he => List.mem_of_mem_filter he) h.depot.closed)

theorem shutDown (hd : h.Traced callers outside) : (Host.shutDown h).2.Traced callers outside := by
  rw [Host.shutDown_eq]
  exact shutDownPools (hd.withdraw (List.nil_subset _) true)

theorem poolFor (hd : h.Traced callers outside) (hf : f ∈ callers) (hw : f.registration.IsWatched)
    {found : Outcome (Option Nat)} (hp : f.poolNumber? h = (found, h')) : h'.Traced callers outside := by
  unfold Facade.poolNumber? Host.poolFor at hp
  have hfound := h.depot.poolFound f.registration f.configuration
  generalize h.depot.poolFor f.registration f.configuration = made at hfound hp
  cases hfound with
  | fresh pool _ _ _ hcreate =>
    cases hp
    have hkeeps := Depot.keeps_append h.depot ⟨f.registration, f.configuration.properties, pool⟩
      (h.depot.inUse ++ [(.of f.configuration, h.depot.pools.length)])
    refine ⟨fun p hp => ?_, fun p hp => ?_, fun held hheld => (hd.outside held hheld).mono hkeeps (.refl _),
      fun hi => ?_⟩
    · rcases List.mem_append.1 hp with hp | hp
      · exact hd.watched p hp
      · exact List.mem_singleton.1 hp ▸ hw
    · rcases List.mem_append.1 hp with hp | hp
      · exact hd.stock p hp
      · obtain rfl := List.mem_singleton.1 hp
        rw [Pool.eq_of_create hcreate]
        exact fun x hx => absurd hx List.not_mem_nil
    · rcases List.mem_append.1 hi with hi | hi
      · exact hd.inUse_of_keeps hkeeps hi
      · cases List.mem_singleton.1 hi
        exact ⟨_, List.getElem?_concat_length, f, hf, ⟨rfl, rfl⟩, rfl⟩
  | _ =>
    cases hp
    exact hd

theorem acquire (hd : h.Traced callers outside) (hf : f ∈ callers) (hw : f.registration.IsWatched) :
    (∃ b h', Lease.acquire f h = (.error b, h') ∧ h'.Traced callers outside) ∨
      ∃ held h', Lease.acquire f h = (.ok ⟨some held⟩, h') ∧ h'.Traced callers (held :: outside) := by
  have hacquired := Lease.acquired f h
  generalize Lease.acquire f h = ended at hacquired ⊢
  cases hacquired with
  | noPool b => exact .inl ⟨b, h, rfl, hd⟩
  | unbound b => exact .inl ⟨b, h, rfl, hd⟩
  | constructed config _ hbind =>
    rcases hw.create hbind h.world with ⟨b, w, hcreate⟩ | ⟨base, w, k, -, hcreate⟩
    · rw [hcreate]
      exact .inl ⟨b, _, rfl, hd.world (.refl _)⟩
    · rw [hcreate]
      have hafter := hd.world (w := (w, h.world.2.make k)) (h.world.2.grows_make k)
      exact .inr ⟨.own _, _, rfl, { hafter with outside := List.forall_mem_cons.2 ⟨⟨base, _, rfl⟩, hafter.outside⟩ }⟩
  | borrowed number h₁ hnumber =>
    cases hborrow : Host.borrow number h₁ with
    | mk outcome h₂ =>
      have hafter := (hd.poolFor hf hw hnumber).borrow hborrow
      cases outcome with
      | error b => exact .inl ⟨b, h₂, rfl, hafter⟩
      | ok x => exact .inr ⟨.pooled number x, h₂, rfl, hafter⟩

theorem release {l : Lease (Watched World AnyConfig)} (hd : h.Traced callers (l.held?.toList ++ outside)) :
    (l.release h).1.held? = none ∧ (l.release h).2.Traced callers outside := by
  obtain ⟨held?⟩ := l
  match held? with
  | none => exact ⟨rfl, hd⟩
  | some (.pooled number x) => exact ⟨rfl, hd.giveBack⟩
  | some (.own c) =>
    have hc : c.IsInstance := hd.outside _ List.mem_cons_self
    refine ⟨rfl, (hd.fewer (List.subset_cons_self _ _)).world ?_⟩
    rw [hc.dispose h.world.1]
    exact Ledger.grows_giveUp _ _

theorem performs (hd : h.Traced callers outside) (hf : f ∈ callers) (hw : f.registration.IsWatched)
    (hp : f.Performs h h') : h'.Traced callers outside := by
  obtain ⟨ρ, r, rfl⟩ := hp.exists_request
  rw [Facade.perform_eq, Facade.snd_settle]
  by_cases ho : f.registration.capabilities.supports r.operation = true
  · rcases hd.acquire hf hw with ⟨b, h', hacquire, hafter⟩ | ⟨held, h', hacquire, hafter⟩
    · rw [Facade.dispatch_of_error ho hacquire]
      exact hafter
    · rw [Facade.dispatch_of_ok ho hacquire]
      have hc := (hafter.outside held List.mem_cons_self).isInstance
      have hleft : (r.on ⟨f.key, held.connector⟩ h'.world).2.2 = h'.world.2 := r.leaves_on hc.leaves h'.world
      have hran : h'.world.2.Grows (r.on ⟨f.key, held.connector⟩ h'.world).2.2 := hleft ▸ .refl _
      exact (release (l := ⟨some held⟩) (hafter.world hran)).2
  · rw [Facade.dispatch_of_unsupported (by simpa using ho)]
    exact hd

end Host.Traced

namespace Session

variable {w : World} {s s' : Session World AnyConfig}

theorem traced_step {origin : World} {shut : Prop} (hw : s.Sound origin shut) (hs : s.host.Traced s.facades s.held)
    (h : Step s s') : s'.host.Traced s'.facades s'.held := by
  cases h with
  | register r => exact { hs with }
  | @newFacade c f hf => exact hs.caller f
  | @poolStatistics f hf =>
    rw [snd_poolStatistics]
    exact hs.poolFor hf (hw.facades f hf) rfl
  | operate hf hp => exact hs.performs hf (hw.facades _ hf) hp
  | @acquire f l h hf hl =>
    rcases hs.acquire hf (hw.facades f hf) with ⟨b, h', hfailed, -⟩ | ⟨held, h', hacquired, hafter⟩
    · cases hl.symm.trans hfailed
    · cases hl.symm.trans hacquired
      exact hafter
  | @acquireFailed f b h hf hl =>
    rcases hs.acquire hf (hw.facades f hf) with ⟨b, h', hfailed, hafter⟩ | ⟨held, h', hacquired, -⟩
    · cases hl.symm.trans hfailed
      exact hafter
    · cases hl.symm.trans hacquired
  | @release before l after hl =>
    rw [held, hl] at hs
    obtain ⟨hnone, hafter⟩ := Host.Traced.release (hs.fewer (held_perm before after l).symm.subset)
    rw [held, held_of_none hnone]
    exact hafter
  | @drop before l after hl =>
    rw [held, hl] at hs
    exact (Host.Traced.release (hs.fewer (held_perm before after l).symm.subset)).2
  | dispose hf => exact hs.disposePools _
  | shutDown => exact hs.shutDown
  | advance nanoseconds => exact { hs with }
  | work w => exact hs.world (.refl _)

theorem traced_run (h : Reaches (start w) s) : s.host.Traced s.facades s.held := by
  induction h with
  | refl => exact ⟨nofun, nofun, nofun, nofun⟩
  | tail hrun hstep ih => exact traced_step ((sound_start w).run hrun) ih hstep

/-- A facade was made at some moment, with the registration of that moment. -/
theorem granted (h : Reaches s s') {f : Facade (Watched World AnyConfig) AnyConfig}
    (hf : f ∈ s'.facades) :
    f ∈ s.facades ∨ ∃ s₀, Reaches s s₀ ∧ Reaches s₀ s' ∧ s₀.host.newFacade f.configuration = .ok f := by
  induction h with
  | refl => exact .inl hf
  | @tail before after hrun hstep ih =>
    have hkept : f ∈ before.facades ∨ before.host.newFacade f.configuration = .ok f := by
      cases hstep with
      | @newFacade c g hg =>
        rcases List.mem_cons.1 hf with rfl | hf
        · exact .inr ((eq_of_newFacade hg).1 ▸ hg)
        · exact .inl hf
      | _ => exact .inl hf
    rcases hkept with hf | hf
    · exact (ih hf).imp_right fun ⟨s₀, hbefore, hafter, hmade⟩ => ⟨s₀, hbefore, hafter.tail hstep, hmade⟩
    · exact .inr ⟨before, hrun, .single hstep, hf⟩

theorem inUse_borrow (number : Nat) (h : Host World AnyConfig) :
    (Host.borrow number h).2.depot.inUse = h.depot.inUse := by
  rw [Host.depot_borrow]
  exact (Host.onPool_sameBut number Pool.borrow h).inUse

/-- What is leased was constructed by the registration of the facade, and in a pool made for it if it is pooled. -/
structure MadeFor (g : Facade (Watched World AnyConfig) AnyConfig) (held : Held (Watched World AnyConfig))
    (h : Host (Watched World AnyConfig) AnyConfig) : Prop where
  pool : ∀ {number x}, held = .pooled number x → ∃ p, h.depot.pools[number]? = some p ∧ p.MadeFor g
  constructed : g.registration.Constructed g.configuration.properties h.world.2 held.connector

/-- What is leased was constructed by the registration of a facade with the same pool key, by the facade's own
one if there is no pool. -/
theorem madeFor_of_acquire {h h' : Host (Watched World AnyConfig) AnyConfig}
    {callers : List (Facade (Watched World AnyConfig) AnyConfig)} {outside : List (Held (Watched World AnyConfig))}
    (hd : h.Traced callers outside) {f : Facade (Watched World AnyConfig) AnyConfig} (hf : f ∈ callers)
    (hw : f.registration.IsWatched) {held : Held (Watched World AnyConfig)}
    (ha : Lease.acquire f h = (.ok ⟨some held⟩, h')) :
    ∃ g ∈ callers, PoolKey.of g.configuration = PoolKey.of f.configuration ∧
      (f.registration.isPoolable = false → g = f) ∧ MadeFor g held h' := by
  rcases hd.acquire hf hw with ⟨b, h'', hfailed, -⟩ | ⟨held', h'', hacquired, hafter⟩
  · cases ha.symm.trans hfailed
  cases ha.symm.trans hacquired
  cases held with
  | pooled number x =>
    obtain ⟨h₁, hnumber, hborrow⟩ := Lease.borrow_of_acquire ha
    -- the pool that the connector was borrowed from is the one in use under the facade's key
    obtain ⟨hpoolable, -, hinUse⟩ := Host.mem_inUse_of_poolFor hnumber
    rw [← inUse_borrow number h₁, hborrow] at hinUse
    obtain ⟨p, hp, hx⟩ := hafter.outside _ List.mem_cons_self
    obtain ⟨p', hp', g, hg, hmade, hkey⟩ := hafter.inUse hinUse
    obtain rfl : p = p' := Option.some.inj (hp.symm.trans hp')
    rw [ConnectorPool.Constructed, hmade.registration, hmade.properties] at hx
    refine ⟨g, hg, hkey, fun hr => absurd (hr.symm.trans hpoolable) (by decide), fun heq => ?_, hx⟩
    cases heq
    exact ⟨p, hp, hmade⟩
  | own c =>
    obtain ⟨config, hbind, hcreate⟩ := Lease.create_of_acquire ha
    refine ⟨f, hf, rfl, fun _ => rfl, nofun, ?_⟩
    rcases hw.create hbind h.world with ⟨b, w, hfailed⟩ | ⟨base, w, k, hk, hmade⟩
    · cases hcreate.symm.trans hfailed
    · obtain ⟨hc, hworld⟩ := Prod.mk.inj (hcreate.symm.trans hmade)
      rw [hworld, Held.connector, Except.ok.inj hc]
      exact .make hk base h.world.2

/-- A facade keeps the registration that was there when it was made, and runs on what that one constructed, or,
if it is pooled, on what the registration of a facade with the same pool key did. -/
theorem runs_on_same_pool_key (hrun : Reaches (start w) s) {f : Facade (Watched World AnyConfig) AnyConfig}
    (hf : f ∈ s.facades) :
    (∃ s₀, Reaches (start w) s₀ ∧ Reaches s₀ s ∧ s₀.host.newFacade f.configuration = .ok f ∧
      s₀.host.registry.find? f.configuration.connector = some f.registration) ∧
    ∀ {held h'}, Lease.acquire f s.host = (.ok ⟨some held⟩, h') →
      (∃ g ∈ s.facades, PoolKey.of g.configuration = PoolKey.of f.configuration ∧
        (f.registration.isPoolable = false → g = f) ∧ MadeFor g held h') ∧
      ((∀ g ∈ s.facades, PoolKey.of g.configuration = PoolKey.of f.configuration →
          g.registration = f.registration) →
        ∃ properties, f.registration.Constructed properties h'.world.2 held.connector) ∧
      ∀ {ρ : Type} {o : Operation} (run : Hosted (Watched World AnyConfig) → StateM (Watched World AnyConfig) ρ),
        f.registration.capabilities.supports o = true →
        (f.dispatch o run s.host).1 = .ok (run ⟨f.key, held.connector⟩ h'.world).1 := by
  obtain ⟨s₀, hbefore, hafter, hnew⟩ := (granted hrun hf).resolve_left List.not_mem_nil
  refine ⟨⟨s₀, hbefore, hafter, hnew, (eq_of_newFacade hnew).2⟩, fun ha => ?_⟩
  have hwatched := ((sound_start w).run hrun).facades f hf
  obtain ⟨g, hg, hkey, hown, hmade⟩ := madeFor_of_acquire (traced_run hrun) hf hwatched ha
  refine ⟨⟨g, hg, hkey, hown, hmade⟩, fun hsame => ?_, fun run ho => ?_⟩
  · exact ⟨_, hsame g hg hkey ▸ hmade.constructed⟩
  · rw [Facade.dispatch_of_ok ho ha]

def elder : Registration Unit Unit where
  key := default
  capabilities := .ofList [.pool, .test]
  bind _ := .ok ()
  create _ := pure { Connector.bare with test? := fun _ => some (pure ()) }

def younger : Registration Unit Unit :=
  { elder with capabilities := .ofList [.pool, .test, .schema] }

def elderFacade : Facade (Watched Unit Unit) Unit := ⟨elder.watched, { connector := default }⟩

def youngerFacade : Facade (Watched Unit Unit) Unit := ⟨younger.watched, { connector := default }⟩

def elderInstance : Pooled (Connector (Watched Unit Unit)) :=
  ⟨⟨0, 0⟩, Connector.numbered { Connector.bare with test? := fun _ => some (pure ()) } 0⟩

/-- After the elder connector was tested. -/
def tested : Session Unit Unit where
  host := (elderFacade.test (Host.register elder.watched (start () : Session Unit Unit).host).2).2
  facades := [elderFacade]

/-- After that the younger connector was registered in its place, and a facade was made for it. -/
def replaced : Session Unit Unit where
  host := (Host.register younger.watched tested.host).2
  facades := [youngerFacade, elderFacade]

theorem reaches_tested : Reaches (start ()) tested := by
  have hmade : Reaches (start ()) ⟨_, [elderFacade], []⟩ :=
    (Relation.ReflTransGen.single (.register elder)).tail (.newFacade (c := elderFacade.configuration) rfl)
  exact hmade.tail (.operate List.mem_cons_self .test)

theorem reaches_replaced : Reaches (start ()) replaced :=
  (reaches_tested.tail (.register younger)).tail (.newFacade (c := youngerFacade.configuration) rfl)

theorem acquire_tested :
    ∃ h', Lease.acquire elderFacade tested.host = (.ok ⟨some (.pooled 0 elderInstance)⟩, h') := ⟨_, rfl⟩

theorem acquire_replaced :
    ∃ h', Lease.acquire youngerFacade replaced.host = (.ok ⟨some (.pooled 0 elderInstance)⟩, h') ∧
      h'.world.2 = { constructions := [⟨elder, ()⟩] } := ⟨_, rfl, rfl⟩

theorem not_constructed_elderInstance (properties : Json) :
    ¬ younger.watched.Constructed properties { constructions := [⟨elder, ()⟩] } elderInstance.object := by
  rintro ⟨base, n, k, hobject, hk, hfor⟩
  obtain rfl : 0 = n := congrArg (Connector.number ()) hobject
  cases hk
  have hcapabilities := congrArg (fun r => r.capabilities.supports .schema) hfor.registration
  revert hcapabilities
  decide

/-- The younger facade is given what was constructed for the elder one. -/
theorem runs_on_replaced_registration :
    ¬ ∀ (s₀ s : Session Unit Unit) (f : Facade (Watched Unit Unit) Unit)
      (r : Registration (Watched Unit Unit) Unit) (held : Held (Watched Unit Unit))
      (h' : Host (Watched Unit Unit) Unit),
      Reaches (start ()) s₀ → s₀.host.newFacade f.configuration = .ok f →
      s₀.host.registry.find? f.configuration.connector = some r →
      Reaches s₀ s → f ∈ s.facades → Lease.acquire f s.host = (.ok ⟨some held⟩, h') →
      ∃ properties, r.Constructed properties h'.world.2 held.connector := by
  intro hown
  obtain ⟨h', hacquire, hledger⟩ := acquire_replaced
  obtain ⟨properties, hconstructed⟩ := hown replaced replaced youngerFacade younger.watched _ h' reaches_replaced rfl
    rfl .refl List.mem_cons_self hacquire
  rw [hledger] at hconstructed
  exact not_constructed_elderInstance properties hconstructed

/-- Before the connector is replaced its facade runs on its own; after that both facades run on the elder one. -/
theorem runs_on_same_pool_key_replaced :
    ∃ h₁ h₂, Lease.acquire elderFacade tested.host = (.ok ⟨some (.pooled 0 elderInstance)⟩, h₁) ∧
      Lease.acquire youngerFacade replaced.host = (.ok ⟨some (.pooled 0 elderInstance)⟩, h₂) ∧
      (∃ properties, elder.watched.Constructed properties h₁.world.2 elderInstance.object) ∧
      (∃ g ∈ [youngerFacade, elderFacade], PoolKey.of g.configuration = PoolKey.of youngerFacade.configuration ∧
        MadeFor g (.pooled 0 elderInstance) h₂) ∧
      (youngerFacade.dispatch .test (fun hosted => hosted.test) replaced.host).1 =
        .ok (Hosted.test ⟨default, elderInstance.object⟩ h₂.world).1 := by
  obtain ⟨h₁, hbefore⟩ := acquire_tested
  obtain ⟨h₂, hafter, -⟩ := acquire_replaced
  obtain ⟨-, helder⟩ := runs_on_same_pool_key reaches_tested (f := elderFacade) List.mem_cons_self
  obtain ⟨-, hyounger⟩ := runs_on_same_pool_key reaches_replaced (f := youngerFacade) List.mem_cons_self
  obtain ⟨-, hsame, -⟩ := helder hbefore
  obtain ⟨⟨g, hg, hkey, -, hmade⟩, -, hran⟩ := hyounger hafter
  have hagree : ∀ g ∈ tested.facades, PoolKey.of g.configuration = PoolKey.of elderFacade.configuration →
      g.registration = elderFacade.registration := fun g hg _ => List.mem_singleton.1 hg ▸ rfl
  exact ⟨h₁, h₂, hbefore, hafter, hsame hagree, ⟨g, hg, hkey, hmade⟩, hran _ rfl⟩

end Session

end Provisioning
