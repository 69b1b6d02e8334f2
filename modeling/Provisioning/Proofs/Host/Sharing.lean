import Provisioning.Host
import Provisioning.Proofs.Observed
import Provisioning.Proofs.Pool.Places

/-! Sharing pools. A depot is in order (`Depot.Tidy`) if its open pools are those in use, each under one key, and
no key has two. Callers who name the same connector, properties and settings are given one pool until the pools
of that connector are closed, and no others are given it: `pools_shared_by_key`. -/

namespace Provisioning

variable {World AnyConfig α : Type}

namespace Host

/-- What comes of a request to a pool: there is no such pool and nothing happens, or the request is run and the
pool changes, with the world. -/
inductive Handled (number : Nat) (request : Pool (Connector World) → Exchange (Connector World) α)
    (h : Host World AnyConfig) : Option α × Host World AnyConfig → Prop
  | unknown : h.depot.pools[number]? = none → Handled number request h (none, h)
  | run {c : ConnectorPool World AnyConfig} {q : Pool (Connector World)} {r : α} {w : World} :
      h.depot.pools[number]? = some c → (request c.pool).run c.owner h.world = ((q, r), w) →
      Handled number request h (some r, { h with
        world := w
        depot := { h.depot with pools := h.depot.pools.set number { c with pool := q } } })

theorem onPool_handled (number : Nat) (request : Pool (Connector World) → Exchange (Connector World) α)
    (h : Host World AnyConfig) : Handled number request h (onPool number request h) := by
  unfold onPool
  split
  · next hc => exact .unknown hc
  · next c hc => exact .run hc rfl

end Host

namespace Depot

/-- The pools in use and those that wait to be closed are the ones that are open. -/
structure Tidy (pending : List Nat) (d : Depot World AnyConfig) : Prop where
  keys : (d.inUse.map Prod.fst).Nodup
  numbers : (d.inUse.map Prod.snd ++ pending).Nodup
  known : ∀ i ∈ d.inUse.map Prod.snd ++ pending, i < d.pools.length
  isOpen : ∀ {i c}, d.pools[i]? = some c → (c.pool.closed = false ↔ i ∈ d.inUse.map Prod.snd ++ pending)
  unused : d.closed = true → d.inUse = []

theorem tidy_empty : ({} : Depot World AnyConfig).Tidy [] where
  keys := List.nodup_nil
  numbers := List.nodup_nil
  known := nofun
  isOpen := nofun
  unused := fun _ => rfl

namespace Tidy

variable {d : Depot World AnyConfig} {pending : List Nat}

theorem fst_injective (hd : d.Tidy pending) {key : PoolKey} {i j : Nat} (hi : (key, i) ∈ d.inUse)
    (hj : (key, j) ∈ d.inUse) : i = j :=
  congrArg Prod.snd (List.inj_on_of_nodup_map hd.keys hi hj rfl)

theorem snd_injective (hd : d.Tidy pending) {key key' : PoolKey} {i : Nat} (hi : (key, i) ∈ d.inUse)
    (hj : (key', i) ∈ d.inUse) : key = key' :=
  congrArg Prod.fst (List.inj_on_of_nodup_map (List.nodup_append.1 hd.numbers).1 hi hj rfl)

/-- What is done to a pool that is neither opened nor closed leaves the depot in order. -/
theorem set (hd : d.Tidy pending) {number : Nat} {c : ConnectorPool World AnyConfig}
    (hc : d.pools[number]? = some c) {q : Pool (Connector World)} (hq : q.closed = c.pool.closed) :
    ({ d with pools := d.pools.set number { c with pool := q } } : Depot _ _).Tidy pending where
  keys := hd.keys
  numbers := hd.numbers
  known i hi := by
    rw [List.length_set]
    exact hd.known i hi
  isOpen {i c'} hi := by
    rw [List.getElem?_set] at hi
    split at hi
    · next he =>
      subst he
      split at hi
      · cases hi
        exact hq ▸ hd.isOpen hc
      · cases hi
    · exact hd.isOpen hi
  unused := hd.unused

theorem close {number : Nat} (hd : d.Tidy (number :: pending)) (c : ConnectorPool World AnyConfig)
    {q : Pool (Connector World)} (hq : q.closed = true) :
    ({ d with pools := d.pools.set number { c with pool := q } } : Depot _ _).Tidy pending := by
  have hrest : ∀ i, i ∈ d.inUse.map Prod.snd ++ number :: pending ↔
      i = number ∨ i ∈ d.inUse.map Prod.snd ++ pending := fun i => by
    rw [List.perm_middle.mem_iff, List.mem_cons]
  have hnodup := List.perm_middle.nodup_iff.1 hd.numbers
  rw [List.nodup_cons] at hnodup
  refine ⟨hd.keys, hnodup.2, fun i hi => ?_, fun {i c'} hi => ?_, hd.unused⟩
  · rw [List.length_set]
    exact hd.known i ((hrest i).2 (.inr hi))
  · rw [List.getElem?_set] at hi
    split at hi
    · next he =>
      subst he
      split at hi
      · cases hi
        simp [hq, hnodup.1]
      · cases hi
    · next hne => rw [hd.isOpen hi, hrest, or_iff_right (Ne.symm hne)]

/-- A new pool is open, and in use under a key that no other pool has. -/
theorem add (hd : d.Tidy []) (hopen : d.closed = false) {c : ConnectorPool World AnyConfig}
    (hc : c.pool.closed = false) {key : PoolKey} (hkey : key ∉ d.inUse.map Prod.fst) :
    ({ d with pools := d.pools ++ [c], inUse := d.inUse ++ [(key, d.pools.length)] } : Depot _ _).Tidy [] := by
  have hknown : ∀ i ∈ d.inUse.map Prod.snd, i < d.pools.length := fun i hi =>
    hd.known i (List.mem_append_left _ hi)
  have hnumbers := hd.numbers
  rw [List.append_nil] at hnumbers
  refine ⟨?_, ?_, fun i hi => ?_, fun {i c'} hi => ?_, fun h => absurd (hopen.symm.trans h) nofun⟩
  · rw [List.map_append]
    exact (List.perm_append_singleton _ _).nodup_iff.2 (List.nodup_cons.2 ⟨hkey, hd.keys⟩)
  · rw [List.append_nil, List.map_append]
    refine (List.perm_append_singleton _ _).nodup_iff.2 (List.nodup_cons.2 ⟨fun hmem => ?_, hnumbers⟩)
    exact Nat.lt_irrefl _ (hknown _ hmem)
  · rw [List.append_nil, List.map_append, List.mem_append] at hi
    rw [List.length_append, List.length_singleton]
    rcases hi with hi | hi
    · exact Nat.lt_succ_of_lt (hknown i hi)
    · exact List.mem_singleton.1 hi ▸ Nat.lt_succ_self _
  · rw [List.append_nil, List.map_append, List.mem_append]
    rw [List.getElem?_append] at hi
    split at hi
    · next hlt =>
      have hold := hd.isOpen hi
      rw [List.append_nil] at hold
      rw [hold]
      refine ⟨.inl, fun h => h.resolve_right fun hnew => ?_⟩
      exact absurd hlt (List.mem_singleton.1 hnew ▸ Nat.lt_irrefl _)
    · next hge =>
      have hlast := (List.getElem?_eq_some_iff.1 hi).1
      rw [List.length_singleton] at hlast
      obtain rfl : i = d.pools.length := by omega
      rw [Nat.sub_self] at hi
      cases hi
      exact ⟨fun _ => .inr (List.mem_singleton.2 rfl), fun _ => hc⟩

/-- Pools that are taken out of use wait to be closed. -/
theorem withdraw (hd : d.Tidy []) {kept gone : List (PoolKey × Nat)} (hp : (kept ++ gone).Perm d.inUse)
    {closed : Bool} (hc : closed = true → kept = []) :
    ({ d with inUse := kept, closed } : Depot _ _).Tidy (gone.map Prod.snd) := by
  have hkeys := (hp.map Prod.fst).nodup_iff.2 hd.keys
  have hnumbers : (kept.map Prod.snd ++ gone.map Prod.snd).Perm (d.inUse.map Prod.snd ++ []) := by
    rw [← List.map_append, List.append_nil]
    exact hp.map Prod.snd
  rw [List.map_append] at hkeys
  exact ⟨(List.nodup_append.1 hkeys).1, hnumbers.nodup_iff.2 hd.numbers,
    fun i hi => hd.known i (hnumbers.mem_iff.1 hi), fun hi => (hd.isOpen hi).trans hnumbers.mem_iff.symm, hc⟩

end Tidy

inductive PoolFound (d : Depot World AnyConfig) (r : Registration World AnyConfig) (c : ApiConfiguration) :
    Except Failure (Option Nat × Depot World AnyConfig) → Prop
  | unpooled : r.isPoolable = false → PoolFound d r c (.ok (none, d))
  | refused (f : Failure) : r.isPoolable = true → PoolFound d r c (.error f)
  | known (i : Nat) : r.isPoolable = true → d.closed = false → (PoolKey.of c, i) ∈ d.inUse →
      PoolFound d r c (.ok (some i, d))
  | fresh (pool : Pool (Connector World)) : r.isPoolable = true → d.closed = false →
      PoolKey.of c ∉ d.inUse.map Prod.fst → Pool.create c.pool d.pools.length = .ok pool →
      PoolFound d r c (.ok (some d.pools.length,
        { d with
          pools := d.pools ++ [⟨r, c.properties, pool⟩]
          inUse := d.inUse ++ [(.of c, d.pools.length)] }))

theorem poolFound (d : Depot World AnyConfig) (r : Registration World AnyConfig) (c : ApiConfiguration) :
    d.PoolFound r c (d.poolFor r c) := by
  unfold poolFor
  split
  · next hr => exact .unpooled (by simpa using hr)
  · next hr =>
    have hr : r.isPoolable = true := by simpa using hr
    split
    · exact .refused _ hr
    · next hopen =>
      have hopen : d.closed = false := by simpa using hopen
      split
      · next key i hfound =>
        have hkey : key = PoolKey.of c := by simpa using List.find?_some hfound
        exact .known i hr hopen (hkey ▸ List.mem_of_find?_eq_some hfound)
      · next hmissing =>
        have hkey : PoolKey.of c ∉ d.inUse.map Prod.fst := fun hmem => by
          obtain ⟨e, he, hke⟩ := List.mem_map.1 hmem
          exact absurd (List.find?_eq_none.1 hmissing e he) (by simp [hke])
        dsimp only
        cases hp : Pool.create c.pool d.pools.length with
        | error f => exact .refused f hr
        | ok pool => exact .fresh pool hr hopen hkey hp

theorem poolFor_of_closed {d : Depot World AnyConfig} (hd : d.closed = true) {r : Registration World AnyConfig}
    (hr : r.isPoolable = true) (c : ApiConfiguration) : d.poolFor r c = .error .poolClosed := by
  unfold poolFor
  simp [hr, hd]

inductive Closing where
  | connector (key : ConnectorKey)
  | host

/-- Depots differ in the pools of such numbers only, and in these by what is in them. -/
structure SameBut (numbers : List Nat) (d d' : Depot World AnyConfig) : Prop where
  inUse : d'.inUse = d.inUse
  closed : d'.closed = d.closed
  length : d'.pools.length = d.pools.length
  pools : ∀ i, i ∉ numbers → d'.pools[i]? = d.pools[i]?

/-- The pools in use of a connector are closed and taken out of use, and that is all. -/
structure Disposes (key : ConnectorKey) (d d' : Depot World AnyConfig) : Prop where
  closed : ∀ {k i}, (k, i) ∈ d.inUse → k.connector = key → ∃ c, d'.pools[i]? = some c ∧ c.pool.closed = true
  kept : ∀ i, (∀ k, (k, i) ∈ d.inUse → k.connector ≠ key) → d'.pools[i]? = d.pools[i]?
  inUse : d'.inUse = d.inUse.filter fun e => e.1.connector ≠ key
  length : d'.pools.length = d.pools.length

/-- What comes of the pools in use: those stay in use that are not closed. -/
structure Follows (closings : List Closing) (d d' : Depot World AnyConfig) : Prop where
  grows : d.pools.length ≤ d'.pools.length
  inUse : ∀ {e : PoolKey × Nat}, e.2 < d.pools.length →
    (e ∈ d'.inUse ↔ e ∈ d.inUse ∧ .connector e.1.connector ∉ closings ∧ .host ∉ closings)
  closed : d'.closed = true ↔ d.closed = true ∨ .host ∈ closings

theorem SameBut.follows {numbers : List Nat} {d d' : Depot World AnyConfig} (h : SameBut numbers d d') :
    Follows [] d d' where
  grows := Nat.le_of_eq h.length.symm
  inUse := by simp [h.inUse]
  closed := by simp [h.closed]

theorem Follows.refl (d : Depot World AnyConfig) : Follows [] d d := ⟨Nat.le_refl _, by simp, by simp⟩

theorem Follows.trans {closings later : List Closing} {d d' d'' : Depot World AnyConfig}
    (h : Follows closings d d') (h' : Follows later d' d'') : Follows (closings ++ later) d d'' where
  grows := Nat.le_trans h.grows h'.grows
  inUse {e} he := by
    rw [h'.inUse (Nat.lt_of_lt_of_le he h.grows), h.inUse he, List.mem_append, List.mem_append]
    tauto
  closed := by rw [h'.closed, h.closed, List.mem_append, or_assoc]

end Depot

namespace Host

theorem onPool_sameBut (number : Nat) (request : Pool (Connector World) → Exchange (Connector World) α)
    (h : Host World AnyConfig) : Depot.SameBut [number] h.depot (onPool number request h).2.depot := by
  have hhandled := onPool_handled number request h
  generalize onPool number request h = ended at hhandled ⊢
  cases hhandled with
  | unknown => exact ⟨rfl, rfl, rfl, fun _ _ => rfl⟩
  | run =>
    refine ⟨rfl, rfl, List.length_set, fun i hi => ?_⟩
    exact List.getElem?_set_ne (Ne.symm (by simpa using hi))

theorem shutDownPools_cons (number : Nat) (rest : List Nat) (h : Host World AnyConfig) :
    shutDownPools (number :: rest) h = shutDownPools rest (onPool number Pool.shutDown h).2 := rfl

theorem shutDownPools_sameBut (numbers : List Nat) (h : Host World AnyConfig) :
    Depot.SameBut numbers h.depot (shutDownPools numbers h).2.depot := by
  induction numbers generalizing h with
  | nil => exact ⟨rfl, rfl, rfl, fun _ _ => rfl⟩
  | cons number rest ih =>
    have hfirst := onPool_sameBut number Pool.shutDown h
    have hrest := ih (onPool number Pool.shutDown h).2
    rw [shutDownPools_cons]
    refine ⟨hrest.inUse.trans hfirst.inUse, hrest.closed.trans hfirst.closed, hrest.length.trans hfirst.length,
      fun i hi => ?_⟩
    rw [List.mem_cons, not_or] at hi
    exact (hrest.pools i hi.2).trans (hfirst.pools i (by simpa using hi.1))

theorem tidy_onPool {h : Host World AnyConfig} {pending : List Nat} (hd : h.depot.Tidy pending) (number : Nat)
    {request : Pool (Connector World) → Exchange (Connector World) α}
    (hrequest : ∀ p, (request p).EndsIn fun q _ => q.closed = p.closed) :
    (onPool number request h).2.depot.Tidy pending := by
  have hhandled := onPool_handled number request h
  generalize onPool number request h = ended at hhandled ⊢
  cases hhandled with
  | unknown => exact hd
  | @run c _ _ _ hc hrun => exact hd.set hc ((hrequest c.pool).run hrun)

theorem tidy_closePool {h : Host World AnyConfig} {number : Nat} {rest : List Nat}
    (hd : h.depot.Tidy (number :: rest)) : (onPool number Pool.shutDown h).2.depot.Tidy rest := by
  have hknown : number < h.depot.pools.length := hd.known number (by simp)
  have hhandled := onPool_handled number Pool.shutDown h
  generalize onPool number Pool.shutDown h = ended at hhandled ⊢
  cases hhandled with
  | unknown hc => exact absurd hknown (Nat.not_lt.2 (List.getElem?_eq_none_iff.1 hc))
  | @run c _ _ _ _ hrun => exact hd.close c ((Pool.endsIn_shutDown _).run hrun).1

theorem tidy_shutDownPools {numbers : List Nat} {h : Host World AnyConfig} (hd : h.depot.Tidy numbers) :
    (shutDownPools numbers h).2.depot.Tidy [] := by
  induction numbers generalizing h with
  | nil => exact hd
  | cons number rest ih =>
    rw [shutDownPools_cons]
    exact ih (tidy_closePool hd)

theorem withdraw_perm (d : Depot World AnyConfig) (key : ConnectorKey) :
    ((d.withdraw key).2.inUse ++ d.inUse.filter fun e => e.1.connector = key).Perm d.inUse := by
  have h := List.filter_append_perm (fun e : PoolKey × Nat => decide (e.1.connector ≠ key)) d.inUse
  simpa [Depot.withdraw] using h

theorem disposePools_eq (key : ConnectorKey) (h : Host World AnyConfig) :
    disposePools key h = shutDownPools (h.depot.withdraw key).1 { h with depot := (h.depot.withdraw key).2 } := rfl

theorem shutDown_eq (h : Host World AnyConfig) :
    shutDown h = shutDownPools h.depot.withdrawAll.1 { h with depot := h.depot.withdrawAll.2 } := rfl

theorem tidy_disposePools {h : Host World AnyConfig} (hd : h.depot.Tidy []) (key : ConnectorKey) :
    (disposePools key h).2.depot.Tidy [] := by
  rw [disposePools_eq]
  exact tidy_shutDownPools (hd.withdraw (withdraw_perm h.depot key) fun hc => by simp [Depot.withdraw, hd.unused hc])

theorem tidy_shutDown {h : Host World AnyConfig} (hd : h.depot.Tidy []) : (shutDown h).2.depot.Tidy [] := by
  rw [shutDown_eq]
  exact tidy_shutDownPools (hd.withdraw (.refl _) fun _ => rfl)

theorem tidy_poolFor {h : Host World AnyConfig} (hd : h.depot.Tidy []) (r : Registration World AnyConfig)
    (c : ApiConfiguration) : (poolFor r c h).2.depot.Tidy [] := by
  unfold poolFor
  have hfound := h.depot.poolFound r c
  generalize h.depot.poolFor r c = found at hfound ⊢
  cases hfound with
  | fresh pool _ hopen hkey hcreate =>
    exact hd.add hopen (c := ⟨r, c.properties, pool⟩) (by rw [Pool.eq_of_create hcreate]) hkey
  | _ => exact hd

/-- One thing that is done with pools, with what is closed by it. Pools are closed by way of the host only. -/
inductive Step (h : Host World AnyConfig) : List Depot.Closing → Host World AnyConfig → Prop
  | poolFor (r : Registration World AnyConfig) (c : ApiConfiguration) : Step h [] (poolFor r c h).2
  | disposePools (key : ConnectorKey) : Step h [.connector key] (disposePools key h).2
  | shutDown : Step h [.host] (shutDown h).2
  | borrow (number : Nat) : Step h [] (borrow number h).2
  | giveBack (number : Nat) (x : Pooled (Connector World)) (clock : Clock) :
      Step h [] (onPool number (fun p => p.giveBack x clock) h).2
  | trim (number : Nat) (clock : Clock) : Step h [] (onPool number (fun p => p.trim clock) h).2
  | meanwhile (registry : Registry World AnyConfig) (world : World) (now : Moment) :
      Step h [] { h with registry, world, now }

inductive Runs (h : Host World AnyConfig) : List Depot.Closing → Host World AnyConfig → Prop
  | refl : Runs h [] h
  | tail {closings later h' h''} : Runs h closings h' → Step h' later h'' → Runs h (closings ++ later) h''

theorem borrow_eq (number : Nat) (h : Host World AnyConfig) :
    ∃ now, borrow number h =
      ((onPool number Pool.borrow h).1.getD (.error (.failed .poolClosed)),
        { (onPool number Pool.borrow h).2 with now }) := ⟨_, rfl⟩

theorem depot_borrow (number : Nat) (h : Host World AnyConfig) :
    (borrow number h).2.depot = (onPool number Pool.borrow h).2.depot := by
  obtain ⟨now, hborrow⟩ := borrow_eq number h
  rw [hborrow]

theorem Step.tidy {h h' : Host World AnyConfig} {closings : List Depot.Closing} (hs : Step h closings h')
    (hd : h.depot.Tidy []) : h'.depot.Tidy [] := by
  cases hs with
  | poolFor r c => exact tidy_poolFor hd r c
  | disposePools key => exact tidy_disposePools hd key
  | shutDown => exact tidy_shutDown hd
  | borrow number =>
    rw [depot_borrow]
    exact tidy_onPool hd number fun p => (Pool.endsIn_borrow p).mono fun _ _ hq => hq.closed
  | giveBack number x clock =>
    exact tidy_onPool hd number fun p => (Pool.endsIn_giveBack p x clock).mono fun _ _ hq => hq.closed
  | trim number clock =>
    exact tidy_onPool hd number fun p => (Pool.endsIn_trim p clock).mono fun _ _ hq => hq.closed
  | meanwhile => exact hd

theorem follows_poolFor (h : Host World AnyConfig) (r : Registration World AnyConfig) (c : ApiConfiguration) :
    Depot.Follows [] h.depot (poolFor r c h).2.depot := by
  unfold poolFor
  have hfound := h.depot.poolFound r c
  generalize h.depot.poolFor r c = found at hfound ⊢
  cases hfound with
  | fresh pool =>
    refine ⟨by simp, fun {e} he => ?_, by simp⟩
    have hne : e ≠ (PoolKey.of c, h.depot.pools.length) := fun heq => by simp [heq] at he
    simp [hne]
  | _ => exact .refl _

theorem follows_disposePools (h : Host World AnyConfig) (key : ConnectorKey) :
    Depot.Follows [.connector key] h.depot (disposePools key h).2.depot := by
  have hsame := shutDownPools_sameBut (h.depot.withdraw key).1 { h with depot := (h.depot.withdraw key).2 }
  rw [disposePools_eq]
  refine ⟨Nat.le_of_eq hsame.length.symm, fun _ => ?_, ?_⟩
  · rw [hsame.inUse]
    simp [Depot.withdraw]
  · rw [hsame.closed]
    simp [Depot.withdraw]

theorem follows_shutDown (h : Host World AnyConfig) :
    Depot.Follows [.host] h.depot (shutDown h).2.depot := by
  have hsame := shutDownPools_sameBut h.depot.withdrawAll.1 { h with depot := h.depot.withdrawAll.2 }
  rw [shutDown_eq]
  refine ⟨Nat.le_of_eq hsame.length.symm, fun _ => ?_, ?_⟩
  · rw [hsame.inUse]
    simp [Depot.withdrawAll]
  · rw [hsame.closed]
    simp [Depot.withdrawAll]

theorem Step.follows {h h' : Host World AnyConfig} {closings : List Depot.Closing} (hs : Step h closings h') :
    Depot.Follows closings h.depot h'.depot := by
  cases hs with
  | poolFor r c => exact follows_poolFor h r c
  | disposePools key => exact follows_disposePools h key
  | shutDown => exact follows_shutDown h
  | borrow number =>
    rw [depot_borrow]
    exact (onPool_sameBut number Pool.borrow h).follows
  | giveBack number x clock => exact (onPool_sameBut number _ h).follows
  | trim number clock => exact (onPool_sameBut number _ h).follows
  | meanwhile => exact .refl _

theorem Runs.tidy {h h' : Host World AnyConfig} {closings : List Depot.Closing} (hr : Runs h closings h')
    (hd : h.depot.Tidy []) : h'.depot.Tidy [] := by
  induction hr with
  | refl => exact hd
  | tail _ hs ih => exact hs.tidy ih

theorem Runs.follows {h h' : Host World AnyConfig} {closings : List Depot.Closing} (hr : Runs h closings h') :
    Depot.Follows closings h.depot h'.depot := by
  induction hr with
  | refl => exact .refl _
  | tail _ hs ih => exact ih.trans hs.follows

theorem mem_inUse_of_poolFor {h h' : Host World AnyConfig} {r : Registration World AnyConfig}
    {c : ApiConfiguration} {i : Nat} (hi : poolFor r c h = (.ok (some i), h')) :
    r.isPoolable = true ∧ h.depot.closed = false ∧ (PoolKey.of c, i) ∈ h'.depot.inUse := by
  unfold poolFor at hi
  have hfound := h.depot.poolFound r c
  generalize h.depot.poolFor r c = found at hfound hi
  cases hfound with
  | unpooled => cases hi
  | refused => cases hi
  | known i' hr hopen hmem =>
    cases hi
    exact ⟨hr, hopen, hmem⟩
  | fresh pool hr hopen =>
    cases hi
    exact ⟨hr, hopen, List.mem_append_right _ List.mem_cons_self⟩

theorem eq_of_poolFor_error {h h' : Host World AnyConfig} {r : Registration World AnyConfig}
    {c : ApiConfiguration} {b : Breakdown} (hb : poolFor r c h = (.error b, h')) : h' = h := by
  unfold poolFor at hb
  split at hb
  · cases hb
  · cases hb
    rfl

theorem eq_of_poolFor_none {h h' : Host World AnyConfig} {r : Registration World AnyConfig}
    {c : ApiConfiguration} (hn : poolFor r c h = (.ok none, h')) : r.isPoolable = false ∧ h' = h := by
  unfold poolFor at hn
  have hfound := h.depot.poolFound r c
  generalize h.depot.poolFor r c = found at hfound hn
  cases hfound with
  | unpooled hr =>
    cases hn
    exact ⟨hr, rfl⟩
  | _ => cases hn

/-- Callers share a pool if they agree on its key and the pools of the connector are not closed in between. -/
theorem same_pool_iff {h h₁ h₂ h₃ : Host World AnyConfig} (hd : h.depot.Tidy [])
    {r r' : Registration World AnyConfig} {c c' : ApiConfiguration} {i j : Nat} {between : List Depot.Closing}
    (hi : poolFor r c h = (.ok (some i), h₁)) (hbetween : Runs h₁ between h₂)
    (hj : poolFor r' c' h₂ = (.ok (some j), h₃)) :
    i = j ↔ PoolKey.of c = PoolKey.of c' ∧ .connector c.connector ∉ between := by
  obtain ⟨-, -, hmem⟩ := mem_inUse_of_poolFor hi
  obtain ⟨-, hopen, hmem'⟩ := mem_inUse_of_poolFor hj
  have hd₁ : h₁.depot.Tidy [] := by
    have := tidy_poolFor hd r c
    rwa [hi] at this
  have hd₃ : h₃.depot.Tidy [] := by
    have := tidy_poolFor (hbetween.tidy hd₁) r' c'
    rwa [hj] at this
  have hlast : Depot.Follows [] h₂.depot h₃.depot := by
    have := follows_poolFor h₂ r' c'
    rwa [hj] at this
  have hafter : Depot.Follows between h₁.depot h₃.depot := List.append_nil between ▸ hbetween.follows.trans hlast
  have hhost : Depot.Closing.host ∉ between := fun hclosed => by
    rw [hbetween.follows.closed.2 (.inr hclosed)] at hopen
    cases hopen
  have hknown : i < h₁.depot.pools.length :=
    hd₁.known i (List.mem_append_left _ (List.mem_map_of_mem hmem))
  constructor
  · rintro rfl
    obtain ⟨hold, hunclosed, -⟩ := (hafter.inUse hknown).1 hmem'
    have hkey := hd₁.snd_injective hmem hold
    exact ⟨hkey, by rwa [← hkey] at hunclosed⟩
  · rintro ⟨hkey, hunclosed⟩
    have hstill : (PoolKey.of c, i) ∈ h₃.depot.inUse := (hafter.inUse hknown).2 ⟨hmem, hunclosed, hhost⟩
    exact hd₃.fst_injective hstill (hkey ▸ hmem')

theorem disposes_disposePools {h : Host World AnyConfig} (hd : h.depot.Tidy []) (key : ConnectorKey) :
    Depot.Disposes key h.depot (disposePools key h).2.depot := by
  have hafter := tidy_disposePools hd key
  have hsame := shutDownPools_sameBut (h.depot.withdraw key).1 { h with depot := (h.depot.withdraw key).2 }
  rw [← disposePools_eq] at hsame
  refine ⟨fun {k i} hmem hkey => ?_, fun i hi => hsame.pools i fun hgone => ?_, hsame.inUse, hsame.length⟩
  · have hlt : i < (disposePools key h).2.depot.pools.length := by
      rw [hsame.length]
      exact hd.known i (List.mem_append_left _ (List.mem_map_of_mem hmem))
    refine ⟨_, List.getElem?_eq_getElem hlt, ?_⟩
    by_contra hopen
    have hstill := (hafter.isOpen (List.getElem?_eq_getElem hlt)).1 (by simpa using hopen)
    rw [List.append_nil, hsame.inUse] at hstill
    obtain ⟨⟨k', _⟩, hk', rfl⟩ := List.mem_map.1 hstill
    obtain ⟨hold, hother⟩ := List.mem_filter.1 hk'
    rw [← hd.snd_injective hmem hold, hkey] at hother
    simp at hother
  · obtain ⟨⟨k, _⟩, hk, rfl⟩ := List.mem_map.1 hgone
    obtain ⟨hmem, hkey⟩ := List.mem_filter.1 hk
    exact hi k hmem (by simpa using hkey)

/-- A pool is open just if it is in use, under one key that no other pool has. Two callers share a pool if they
agree on the key and the pools of the connector were not closed in between. -/
theorem pools_shared_by_key {w : World} {closings : List Depot.Closing} {h : Host World AnyConfig}
    (hrun : Runs { world := w } closings h) :
    (h.depot.inUse.map Prod.fst).Nodup ∧
    (∀ i c, h.depot.pools[i]? = some c →
      (c.pool.closed = false ∧ ∃! key, (key, i) ∈ h.depot.inUse) ∨
        c.pool.closed = true ∧ ∀ key, (key, i) ∉ h.depot.inUse) ∧
    (∀ {r r' c c' i j between h₁ h₂ h₃}, poolFor r c h = (.ok (some i), h₁) → Runs h₁ between h₂ →
      poolFor r' c' h₂ = (.ok (some j), h₃) →
      (i = j ↔ (c.connector = c'.connector ∧ c.properties.write = c'.properties.write ∧ c.pool = c'.pool) ∧
        .connector c.connector ∉ between)) ∧
    (∀ key, Depot.Disposes key h.depot (disposePools key h).2.depot) ∧
    (.host ∈ closings → (∀ c ∈ h.depot.pools, c.pool.closed = true) ∧
      ∀ (r : Registration World AnyConfig) c, r.isPoolable = true →
        poolFor r c h = (.error (.failed .poolClosed), h)) ∧
    ∀ {r c b h'}, poolFor r c h = (.error b, h') → h' = h := by
  have hd : h.depot.Tidy [] := hrun.tidy Depot.tidy_empty
  have hplaces : ∀ i c, h.depot.pools[i]? = some c →
      (c.pool.closed = false ↔ ∃ key, (key, i) ∈ h.depot.inUse) := fun i c hc => by
    rw [hd.isOpen hc, List.append_nil, List.mem_map]
    exact ⟨fun ⟨e, he, hi⟩ => ⟨e.1, hi ▸ he⟩, fun ⟨key, hkey⟩ => ⟨_, hkey, rfl⟩⟩
  refine ⟨hd.keys, fun i c hc => ?_, fun hi hbetween hj => ?_, disposes_disposePools hd, fun hshut => ?_,
    eq_of_poolFor_error⟩
  · by_cases hopen : c.pool.closed = false
    · obtain ⟨key, hkey⟩ := (hplaces i c hc).1 hopen
      exact .inl ⟨hopen, key, hkey, fun key' hkey' => hd.snd_injective hkey' hkey⟩
    · exact .inr ⟨by simpa using hopen, fun key hkey => hopen ((hplaces i c hc).2 ⟨key, hkey⟩)⟩
  · rw [same_pool_iff hd hi hbetween hj, PoolKey.of, PoolKey.of, PoolKey.mk.injEq]
  · have hclosed : h.depot.closed = true := hrun.follows.closed.2 (.inr hshut)
    refine ⟨fun c hc => ?_, fun r c hr => ?_⟩
    · obtain ⟨i, hi⟩ := List.getElem?_of_mem hc
      by_contra hopen
      obtain ⟨key, hkey⟩ := (hplaces i c hi).1 (by simpa using hopen)
      rw [hd.unused hclosed] at hkey
      cases hkey
    · unfold poolFor
      rw [Depot.poolFor_of_closed hclosed hr]

def loiterer : Registration Unit Unit where
  key := default
  capabilities := .ofList [.pool]
  bind _ := .ok ()
  create _ := pure Connector.bare

/-- Two pools are closed with their connector, and a third is made in place of the first. -/
theorem pools_shared_by_key_third_pool :
    let narrow : ApiConfiguration := { connector := default }
    let wide : ApiConfiguration := { narrow with pool := { maxObjects := 20 } }
    let h₁ : Host Unit Unit := (poolFor loiterer wide (poolFor loiterer narrow { world := () }).2).2
    let h₂ := (disposePools default h₁).2
    let h₃ := (poolFor loiterer narrow h₂).2
    Runs { world := () } [] h₁ ∧ poolFor loiterer narrow h₁ = (.ok (some 0), h₁) ∧
    Runs h₁ [.connector default] h₂ ∧ poolFor loiterer narrow h₂ = (.ok (some 2), h₃) ∧
    h₃.depot.pools.map (·.pool.closed) = [true, true, false] ∧
    (0 = 2 ↔ (narrow.connector = narrow.connector ∧ narrow.properties.write = narrow.properties.write ∧
      narrow.pool = narrow.pool) ∧ .connector narrow.connector ∉ [Depot.Closing.connector default]) := by
  intro narrow wide h₁ h₂ h₃
  have hmade : Runs { world := () } [] h₁ := (Runs.refl.tail (.poolFor loiterer narrow)).tail (.poolFor loiterer wide)
  have hclosed : Runs h₁ [.connector default] h₂ := Runs.refl.tail (.disposePools default)
  have hfirst : poolFor loiterer narrow h₁ = (.ok (some 0), h₁) := rfl
  have hthird : poolFor loiterer narrow h₂ = (.ok (some 2), h₃) := rfl
  obtain ⟨-, -, hshared, -⟩ := pools_shared_by_key hmade
  exact ⟨hmade, hfirst, hclosed, hthird, rfl, hshared hfirst hclosed hthird⟩

end Host

end Provisioning
