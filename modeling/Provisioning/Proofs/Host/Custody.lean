import Provisioning.Proofs.Host.Instances
import Provisioning.Proofs.Host.Sharing
import Provisioning.Proofs.Requests

/-! Custody. What a host does keeps it in order (`Host.Sound`): every instance is idle in one of its pools or
held outside of them, a pool that is not closed is in use, and what is held can be given back. Each thing a
host can be asked to do is shown to keep this, with what it hands out and takes back. -/

namespace Provisioning

variable {World AnyConfig α : Type}

def Held.Fits (pools : Nat) : Held (Watched World AnyConfig) → Prop
  | pooled number x => number < pools ∧ x.object.IsInstance
  | own c => c.IsInstance

theorem Held.Fits.isInstance {pools : Nat} {held : Held (Watched World AnyConfig)} (hf : held.Fits pools) :
    held.connector.IsInstance := by
  cases held with
  | pooled number x => exact hf.2
  | own c => exact hf

/-- A pool that makes numbered instances. -/
structure ConnectorPool.Sound (c : ConnectorPool (Watched World AnyConfig) AnyConfig) : Prop where
  watched : c.registration.IsWatched
  drained : c.pool.Drained
  instances : ∀ x ∈ c.pool.stock, x.object.IsInstance

def ConnectorPool.idle (origin : World) (c : ConnectorPool (Watched World AnyConfig) AnyConfig) : List Nat :=
  numbersOf origin c.pool.stock

namespace Host

def idle (origin : World) (h : Host (Watched World AnyConfig) AnyConfig) : List Nat :=
  h.depot.pools.flatMap (ConnectorPool.idle origin)

theorem idle_set_perm (origin : World) {pools : List (ConnectorPool (Watched World AnyConfig) AnyConfig)} {number : Nat}
    (hn : number < pools.length) (c : ConnectorPool (Watched World AnyConfig) AnyConfig) :
    ((pools.set number c).flatMap (ConnectorPool.idle origin)).Perm
      (c.idle origin ++ (pools.eraseIdx number).flatMap (ConnectorPool.idle origin)) := by
  rw [← List.flatMap_cons]
  exact (List.set_perm_cons_eraseIdx hn c).flatMap_right _

theorem perm_append_append (a b c d : List Nat) : (a ++ b ++ (c ++ d)).Perm (a ++ c ++ (b ++ d)) := by
  rw [List.append_assoc, List.append_assoc]
  exact (List.perm_append_comm_assoc b c d).append_left a

theorem numbers_append (origin : World) (number : Nat) (l : List (Pooled (Connector (Watched World AnyConfig))))
    (outside : List (Held (Watched World AnyConfig))) :
    ((l.map (Held.pooled number) ++ outside).map fun x => x.connector.number origin) =
      numbersOf origin l ++ outside.map fun x => x.connector.number origin := by
  rw [List.map_append, List.map_map]
  rfl

/-- The host is in order while some of its pools wait to be closed and some instances are held outside; and it
is shut down where it has to be. -/
structure Sound (origin : World) (shut : Prop) (pending : List Nat) (outside : List (Held (Watched World AnyConfig)))
    (h : Host (Watched World AnyConfig) AnyConfig) : Prop where
  registered : ∀ r ∈ h.registry.registrations, r.IsWatched
  pools : ∀ c ∈ h.depot.pools, c.Sound
  used : ∀ {i c}, h.depot.pools[i]? = some c → c.pool.closed = true ∨ i ∈ h.depot.inUse.map Prod.snd ++ pending
  unused : h.depot.closed = true → h.depot.inUse = []
  shut_down : shut → h.depot.closed = true
  fits : ∀ x ∈ outside, x.Fits h.depot.pools.length
  balanced : h.world.2.Balanced (h.idle origin ++ outside.map fun x => x.connector.number origin)

namespace Sound

variable {origin : World} {shut : Prop} {pending : List Nat} {outside : List (Held (Watched World AnyConfig))}
  {h : Host (Watched World AnyConfig) AnyConfig}

theorem perm (hs : h.Sound origin shut pending outside) {other : List (Held (Watched World AnyConfig))}
    (hp : outside.Perm other) : h.Sound origin shut pending other :=
  { hs with
    fits := fun x hx => hs.fits x (hp.mem_iff.2 hx)
    balanced := hs.balanced.perm ((hp.map _).append_left _) }

theorem world (hs : h.Sound origin shut pending outside) {w : Watched World AnyConfig} (hw : w.2 = h.world.2) :
    ({ h with world := w } : Host _ _).Sound origin shut pending outside :=
  { hs with balanced := by rw [hw]; exact hs.balanced }

theorem later (hs : h.Sound origin shut pending outside) (now : Moment) :
    ({ h with now } : Host _ _).Sound origin shut pending outside := { hs with }

theorem register (hs : h.Sound origin shut pending outside) {r : Registration (Watched World AnyConfig) AnyConfig}
    (hr : r.IsWatched) : (Host.register r h).2.Sound origin shut pending outside :=
  { hs with
    registered := List.forall_mem_cons.2 ⟨hr, fun old ho => hs.registered old (List.mem_of_mem_filter ho)⟩ }

/-- After an exchange of one of the pools, what it took from outside is no longer there, and what it handed out
is. -/
theorem exchange {number : Nat} {c : ConnectorPool (Watched World AnyConfig) AnyConfig}
    (care : List (Pooled (Connector (Watched World AnyConfig))))
    (hs : h.Sound origin shut pending (care.map (Held.pooled number) ++ outside))
    (hc : h.depot.pools[number]? = some c) {e : Exchange (Connector (Watched World AnyConfig)) α}
    {handedOut : α → List (Pooled (Connector (Watched World AnyConfig)))} (now : Moment)
    (ha : e.AccountsFor handedOut c.pool.number c.pool.issued (c.pool.stock ++ care))
    (hh : e.Handles Connector.IsInstance handedOut) (hsteps : e.Always (c.pool.Reaches now))
    {q : Pool (Connector (Watched World AnyConfig))} {r : α} {w : Watched World AnyConfig}
    (hrun : e.run c.owner h.world = ((q, r), w)) :
    ({ h with
        world := w
        depot := { h.depot with pools := h.depot.pools.set number { c with pool := q } } } : Host _ _).Sound
      origin shut pending ((handedOut r).map (Held.pooled number) ++ outside) := by
  obtain ⟨hn, hget⟩ := List.getElem?_eq_some_iff.1 hc
  have hsound : c.Sound := hs.pools c (List.mem_of_getElem? hc)
  have hq : c.pool.Reaches now q := by
    obtain ⟨calls, hends⟩ := e.ends_run c.owner h.world
    rw [hrun] at hends
    exact hsteps.of_ends hends
  -- the idle instances of other pools and what else is held are of no concern to the exchange
  have hidle := idle_set_perm origin hn c
  rw [← hget, List.set_getElem_self, hget] at hidle
  have hbefore := hs.balanced.perm (hidle.append_right _)
  rw [numbers_append] at hbefore
  have hbefore := hbefore.perm (perm_append_append _ _ _ _)
  rw [ConnectorPool.idle, ← numbersOf_append] at hbefore
  obtain ⟨hafter, hinstances⟩ :=
    Exchange.balanced_run (ConnectorPool.numbers hsound.watched) origin ha hh hbefore hrun
  refine ⟨hs.registered, fun c' hc' => ?_, fun {i c'} hi => ?_, hs.unused, hs.shut_down, fun x hx => ?_, ?_⟩
  · rcases List.mem_or_eq_of_mem_set hc' with hc' | rfl
    · exact hs.pools c' hc'
    · exact ⟨hsound.watched, hq.drained hsound.drained, fun x hx => hinstances x (List.mem_append_left _ hx)⟩
  · rw [List.getElem?_set] at hi
    split at hi
    · next he =>
      subst he
      cases hi
      exact (hs.used hc).imp_left hq.closed
    · exact hs.used hi
  · rw [List.length_set]
    rcases List.mem_append.1 hx with hx | hx
    · obtain ⟨y, hy, rfl⟩ := List.mem_map.1 hx
      exact ⟨hn, hinstances y (List.mem_append_right _ hy)⟩
    · exact hs.fits x (List.mem_append_right _ hx)
  · rw [numbersOf_append] at hafter
    refine (hafter.perm (perm_append_append _ _ _ _)).perm ?_
    rw [numbers_append]
    exact (idle_set_perm origin hn { c with pool := q }).symm.append_right _

theorem borrow (hs : h.Sound origin shut pending outside) (number : Nat) :
    ∃ outcome h', Host.borrow number h = (outcome, h') ∧
      h'.Sound origin shut pending ((Pool.handedOut outcome).map (Held.pooled number) ++ outside) := by
  unfold Host.borrow
  have hhandled := onPool_handled number Pool.borrow h
  generalize onPool number Pool.borrow h = ended at hhandled ⊢
  cases hhandled with
  | unknown => exact ⟨_, _, rfl, hs.later _⟩
  | @run c _ outcome _ hc hrun =>
    have hinstances := (hs.pools c (List.mem_of_getElem? hc)).instances
    have hafter := exchange [] hs hc h.now
      (by rw [List.append_nil]; exact Pool.accountsFor_borrow c.pool)
      (Pool.handles_borrow hinstances) (Pool.always_borrow _ c.pool) hrun
    exact ⟨outcome, _, rfl, hafter.later _⟩

theorem giveBack {number : Nat} {x : Pooled (Connector (Watched World AnyConfig))}
    (hs : h.Sound origin shut pending (Held.pooled number x :: outside)) :
    (onPool number (fun p => p.giveBack x h.now) h).2.Sound origin shut pending outside := by
  have hfits : number < h.depot.pools.length ∧ x.object.IsInstance := hs.fits _ List.mem_cons_self
  have hhandled := onPool_handled number (fun p => p.giveBack x h.now) h
  generalize onPool number (fun p => p.giveBack x h.now) h = ended at hhandled ⊢
  cases hhandled with
  | unknown hc => exact absurd hfits.1 (Nat.not_lt.2 (List.getElem?_eq_none_iff.1 hc))
  | @run c _ _ _ hc hrun =>
    have hinstances := (hs.pools c (List.mem_of_getElem? hc)).instances
    exact exchange [x] hs hc h.now (Pool.accountsFor_giveBack c.pool x h.now)
      (Pool.handles_giveBack hinstances hfits.2 h.now) (Pool.always_giveBack c.pool x h.now) hrun

theorem settled {number : Nat} {rest : List Nat} (hs : h.Sound origin shut (number :: rest) outside)
    (hc : ∀ c, h.depot.pools[number]? = some c → c.pool.closed = true) :
    h.Sound origin shut rest outside := by
  refine { hs with used := fun {i c} hi => ?_ }
  rcases hs.used hi with hclosed | hmem
  · exact .inl hclosed
  · rw [List.mem_append, List.mem_cons] at hmem
    rcases hmem with hmem | rfl | hmem
    · exact .inr (List.mem_append_left _ hmem)
    · exact .inl (hc c hi)
    · exact .inr (List.mem_append_right _ hmem)

theorem closePool {number : Nat} {rest : List Nat} (hs : h.Sound origin shut (number :: rest) outside) :
    (onPool number Pool.shutDown h).2.Sound origin shut rest outside := by
  have hhandled := onPool_handled number Pool.shutDown h
  generalize onPool number Pool.shutDown h = ended at hhandled ⊢
  cases hhandled with
  | unknown hc => exact hs.settled fun c hc' => absurd (hc.symm.trans hc') nofun
  | @run c q _ _ hc hrun =>
    have hinstances := (hs.pools c (List.mem_of_getElem? hc)).instances
    have hafter := exchange [] hs hc h.now
      (by rw [List.append_nil]; exact Pool.accountsFor_shutDown c.pool)
      (Pool.handles_shutDown hinstances) (Pool.always_shutDown _ c.pool) hrun
    have hclosed : q.closed = true := ((Pool.endsIn_shutDown c.pool).run hrun).1
    refine hafter.settled fun c' hc' => ?_
    obtain rfl : { c with pool := q } = c' := by
      simpa [List.getElem?_set, (List.getElem?_eq_some_iff.1 hc).1] using hc'
    exact hclosed

theorem shutDownPools {numbers : List Nat} (hs : h.Sound origin shut numbers outside) :
    (Host.shutDownPools numbers h).2.Sound origin shut [] outside := by
  induction numbers generalizing h with
  | nil => exact hs
  | cons number rest ih => exact ih hs.closePool

theorem disposePools (hs : h.Sound origin shut [] outside) (key : ConnectorKey) :
    (Host.disposePools key h).2.Sound origin shut [] outside := by
  refine Sound.shutDownPools (h := { h with depot := (h.depot.withdraw key).2 }) ?_
  refine { hs with used := fun {i c} hi => (hs.used hi).imp_right fun hmem => ?_, unused := fun hc => ?_ }
  · -- a pool in use is withdrawn, or stays in use
    rw [List.append_nil, List.mem_map] at hmem
    obtain ⟨entry, hentry, rfl⟩ := hmem
    by_cases hkey : entry.1.connector = key
    · exact List.mem_append_right _ (List.mem_map_of_mem (List.mem_filter.2 ⟨hentry, by simpa using hkey⟩))
    · exact List.mem_append_left _ (List.mem_map_of_mem (List.mem_filter.2 ⟨hentry, by simpa using hkey⟩))
  · exact List.filter_eq_nil_iff.2 fun entry hentry => by rw [hs.unused hc] at hentry; cases hentry

theorem shutDown (hs : h.Sound origin shut [] outside) :
    (Host.shutDown h).2.Sound origin True [] outside := by
  refine Sound.shutDownPools (h := { h with depot := h.depot.withdrawAll.2 }) ?_
  refine { hs with used := fun hi => ?_, unused := fun _ => rfl, shut_down := fun _ => rfl }
  have hused := hs.used hi
  rw [List.append_nil] at hused
  exact hused

theorem addPool (hs : h.Sound origin shut [] outside) (hopen : h.depot.closed = false)
    {c : ConnectorPool (Watched World AnyConfig) AnyConfig} (hw : c.registration.IsWatched) {settings : PoolSettings}
    (hp : Pool.create settings h.depot.pools.length = .ok c.pool) (key : PoolKey) :
    ({ h with
        depot := { h.depot with
          pools := h.depot.pools ++ [c]
          inUse := h.depot.inUse ++ [(key, h.depot.pools.length)] } } : Host _ _).Sound
      origin shut [] outside := by
  have hempty := Pool.eq_of_create hp
  have hstock : c.pool.stock = [] := by rw [hempty]; rfl
  have hsound : c.Sound := ⟨hw, fun _ => by rw [hempty], fun x hx => by rw [hstock] at hx; cases hx⟩
  refine { hs with
    pools := fun c' hc' => ?_
    used := fun {i c'} hi => ?_
    unused := fun hc => ?_
    fits := fun x hx => ?_
    balanced := ?_ }
  · rcases List.mem_append.1 hc' with hc' | hc'
    · exact hs.pools c' hc'
    · exact List.mem_singleton.1 hc' ▸ hsound
  · rw [List.append_nil, List.map_append, List.mem_append]
    rw [List.getElem?_append] at hi
    split at hi
    · have hused := hs.used hi
      rw [List.append_nil] at hused
      exact hused.imp_right .inl
    · next hlen =>
      have hi' := (List.getElem?_eq_some_iff.1 hi).1
      rw [List.length_singleton] at hi'
      exact .inr (.inr (List.mem_singleton.2 (by omega)))
  · rw [hopen] at hc
    cases hc
  · have hx := hs.fits x hx
    cases x with
    | pooled number y => exact ⟨by have := hx.1; rw [List.length_append]; omega, hx.2⟩
    | own y => exact hx
  · have hidle : (h.depot.pools ++ [c]).flatMap (ConnectorPool.idle origin) = h.idle origin := by
      rw [List.flatMap_append, List.flatMap_singleton, ConnectorPool.idle, hstock]
      exact List.append_nil _
    exact hs.balanced.perm (.of_eq (congrArg (· ++ _) hidle.symm))

theorem poolFor (hs : h.Sound origin shut [] outside) {r : Registration (Watched World AnyConfig) AnyConfig}
    (hr : r.IsWatched) (c : ApiConfiguration) : (Host.poolFor r c h).2.Sound origin shut [] outside := by
  unfold Host.poolFor
  have hfound := h.depot.poolFound r c
  generalize h.depot.poolFor r c = found at hfound ⊢
  cases hfound with
  | fresh pool _ hopen _ hcreate => exact hs.addPool hopen (c := ⟨r, c.properties, pool⟩) hr hcreate (.of c)
  | _ => exact hs

theorem of_poolFor {h' : Host (Watched World AnyConfig) AnyConfig} (hs : h.Sound origin shut [] outside)
    {r : Registration (Watched World AnyConfig) AnyConfig} (hr : r.IsWatched) {c : ApiConfiguration}
    {found : Outcome (Option Nat)} (hp : Host.poolFor r c h = (found, h')) : h'.Sound origin shut [] outside := by
  have hafter := hs.poolFor hr c
  rwa [hp] at hafter

theorem construct (hs : h.Sound origin shut pending outside) (base : Connector World) (w : World)
    (k : Construction World AnyConfig) :
    ({ h with world := (w, h.world.2.make k) } : Host _ _).Sound origin shut pending
      (.own (base.numbered h.world.2.made) :: outside) :=
  { hs with
    fits := List.forall_mem_cons.2 ⟨⟨base, _, rfl⟩, hs.fits⟩
    balanced := (hs.balanced.make k).perm List.perm_middle.symm }

theorem giveUp {c : Connector (Watched World AnyConfig)} (hs : h.Sound origin shut pending (.own c :: outside)) :
    ({ h with world := (c.dispose h.world).2 } : Host _ _).Sound origin shut pending outside := by
  have hc : c.IsInstance := hs.fits _ List.mem_cons_self
  refine { hs with fits := fun x hx => hs.fits x (List.mem_cons_of_mem _ hx), balanced := ?_ }
  rw [hc.dispose origin]
  exact (hs.balanced.perm List.perm_middle).giveUp

/-- A lease that is had is held; a failure leaves nothing behind. -/
theorem acquire (hs : h.Sound origin shut [] outside) {f : Facade (Watched World AnyConfig) AnyConfig}
    (hf : f.registration.IsWatched) :
    (∃ b h', Lease.acquire f h = (.error b, h') ∧ h'.Sound origin shut [] outside) ∨
      ∃ held h', Lease.acquire f h = (.ok ⟨some held⟩, h') ∧ h'.Sound origin shut [] (held :: outside) := by
  have hacquired := Lease.acquired f h
  generalize Lease.acquire f h = ended at hacquired ⊢
  cases hacquired with
  | noPool b => exact .inl ⟨b, h, rfl, hs⟩
  | unbound b => exact .inl ⟨b, h, rfl, hs⟩
  | constructed config _ hbind =>
    rcases hf.create hbind h.world with ⟨b, w, hcreate⟩ | ⟨base, w, k, -, hcreate⟩
    · rw [hcreate]
      exact .inl ⟨b, _, rfl, hs.world (w := (w, h.world.2)) rfl⟩
    · rw [hcreate]
      exact .inr ⟨.own _, _, rfl, hs.construct base w k⟩
  | borrowed number h₁ hnumber =>
    obtain ⟨outcome, h₂, hborrow, hafter⟩ := (hs.of_poolFor hf hnumber).borrow number
    rw [hborrow]
    cases outcome with
    | error b => exact .inl ⟨b, h₂, rfl, hafter⟩
    | ok x => exact .inr ⟨.pooled number x, h₂, rfl, hafter⟩

/-- A lease that is released holds nothing, and the host has back what it held. -/
theorem release {l : Lease (Watched World AnyConfig)} (hs : h.Sound origin shut [] (l.held?.toList ++ outside)) :
    (l.release h).1.held? = none ∧ (l.release h).2.Sound origin shut [] outside := by
  obtain ⟨held?⟩ := l
  match held? with
  | none => exact ⟨rfl, hs⟩
  | some (.pooled number x) => exact ⟨rfl, hs.giveBack⟩
  | some (.own c) => exact ⟨rfl, hs.giveUp⟩

theorem dispatch (hs : h.Sound origin shut [] outside) {f : Facade (Watched World AnyConfig) AnyConfig}
    (hf : f.registration.IsWatched) (o : Operation) {ρ : Type}
    (run : Hosted (Watched World AnyConfig) → StateM (Watched World AnyConfig) ρ)
    (hrun : ∀ hosted w, hosted.connector.Leaves Prod.snd → (run hosted w).2.2 = w.2) :
    (f.dispatch o run h).2.Sound origin shut [] outside := by
  by_cases ho : f.registration.capabilities.supports o = true
  · rcases hs.acquire hf with ⟨b, h', hacquire, hafter⟩ | ⟨held, h', hacquire, hafter⟩
    · rw [Facade.dispatch_of_error ho hacquire]
      exact hafter
    · rw [Facade.dispatch_of_ok ho hacquire]
      have hheld : held.connector.IsInstance := (hafter.fits held List.mem_cons_self).isInstance
      have hran := hafter.world (hrun ⟨f.key, held.connector⟩ h'.world hheld.leaves)
      exact (Sound.release (l := ⟨some held⟩) hran).2
  · rw [Facade.dispatch_of_unsupported (by simpa using ho)]
    exact hs

/-- Whatever comes of a request, the host has its connector back. -/
theorem perform (hs : h.Sound origin shut [] outside) {f : Facade (Watched World AnyConfig) AnyConfig}
    (hf : f.registration.IsWatched) {ρ : Type} (r : Request ρ) :
    (f.perform r h).2.Sound origin shut [] outside := by
  rw [Facade.perform_eq, Facade.snd_settle]
  exact hs.dispatch hf r.operation r.on fun hosted w hl => r.leaves_on hl w

end Sound

end Host

inductive Facade.Performs (f : Facade World AnyConfig) (h : Host World AnyConfig) : Host World AnyConfig → Prop
  | create (c : ObjectClass) (attributes : List Attribute) (options : Options) :
      Performs f h (f.create c attributes options h).2
  | update (kind : UpdateKind) (c : ObjectClass) (attributes : List Attribute) (options : Options) :
      Performs f h (f.update kind c attributes options h).2
  | delete (c : ObjectClass) (uid : Uid) (options : Options) : Performs f h (f.delete c uid options h).2
  | get (c : ObjectClass) (uid : Uid) (options : Options) : Performs f h (f.get c uid options h).2
  | search (c : ObjectClass) (filter? : Option Filter) (options : Options) {σ : Type}
      (handler : Handler ConnectorObject σ) (state : σ) :
      Performs f h (f.search c filter? options handler state h).2
  | sync (c : ObjectClass) (token? : Option SyncToken) (options : Options) {σ : Type} (handler : Handler Delta σ)
      (state : σ) : Performs f h (f.sync c token? options handler state h).2
  | latestToken (c : ObjectClass) : Performs f h (f.latestToken c h).2
  | authenticate (c : ObjectClass) (username : String) (password : Secret) (options : Options) :
      Performs f h (f.authenticate c username password options h).2
  | resolveUsername (c : ObjectClass) (username : String) (options : Options) :
      Performs f h (f.resolveUsername c username options h).2
  | schema : Performs f h (f.schema h).2
  | test : Performs f h (f.test h).2
  | scriptOnConnector (script : Script) (options : Options) : Performs f h (f.scriptOnConnector script options h).2
  | scriptOnResource (script : Script) (options : Options) : Performs f h (f.scriptOnResource script options h).2

theorem Facade.Performs.exists_request {f : Facade World AnyConfig} {h h' : Host World AnyConfig}
    (hp : f.Performs h h') : ∃ (ρ : Type) (r : Request ρ), h' = (f.perform r h).2 := by
  cases hp with
  | create c attributes options => exact ⟨_, .create c attributes options, rfl⟩
  | update kind c attributes options => exact ⟨_, .update kind c attributes options, rfl⟩
  | delete c uid options => exact ⟨_, .delete c uid options, rfl⟩
  | get c uid options => exact ⟨_, .get c uid options, rfl⟩
  | search c filter? options handler state => exact ⟨_, .search c filter? options handler state, rfl⟩
  | sync c token? options handler state => exact ⟨_, .sync c token? options handler state, rfl⟩
  | latestToken c => exact ⟨_, .latestToken c, rfl⟩
  | authenticate c username password options => exact ⟨_, .authenticate c username password options, rfl⟩
  | resolveUsername c username options => exact ⟨_, .resolveUsername c username options, rfl⟩
  | schema => exact ⟨_, .schema, rfl⟩
  | test => exact ⟨_, .test, rfl⟩
  | scriptOnConnector script options => exact ⟨_, .scriptOnConnector script options, rfl⟩
  | scriptOnResource script options => exact ⟨_, .scriptOnResource script options, rfl⟩

theorem Host.Sound.performs {origin : World} {shut : Prop} {outside : List (Held (Watched World AnyConfig))}
    {h h' : Host (Watched World AnyConfig) AnyConfig} (hs : h.Sound origin shut [] outside)
    {f : Facade (Watched World AnyConfig) AnyConfig} (hf : f.registration.IsWatched) (hp : f.Performs h h') :
    h'.Sound origin shut [] outside := by
  obtain ⟨ρ, r, rfl⟩ := hp.exists_request
  exact hs.perform hf r

end Provisioning
