import Provisioning.Facade.Operations
import Provisioning.Proofs.Conduct
import Provisioning.Proofs.Host.Sharing

/-! Requests. Whatever callers ask of a facade takes one course: the request is dispatched as some operation, and a
connector that was leased for it handles it (`Facade.perform_eq`), keeping to the conduct of its abilities
(`Request.obeys_on`). -/

namespace Provisioning

/-- What callers can ask of a facade, with all they give to it and the type of what they get. -/
inductive Request : Type → Type 1
  | create (c : ObjectClass) (attributes : List Attribute) (options : Options) : Request (Outcome Uid)
  | update (kind : UpdateKind) (c : ObjectClass) (attributes : List Attribute) (options : Options) :
      Request (Outcome Uid)
  | delete (c : ObjectClass) (uid : Uid) (options : Options) : Request (Outcome Unit)
  | get (c : ObjectClass) (uid : Uid) (options : Options) : Request (Outcome (Option ConnectorObject))
  | search {σ : Type} (c : ObjectClass) (filter? : Option Filter) (options : Options)
      (handler : Handler ConnectorObject σ) (state : σ) : Request (Outcome SearchResult × σ)
  | sync {σ : Type} (c : ObjectClass) (token? : Option SyncToken) (options : Options) (handler : Handler Delta σ)
      (state : σ) : Request (Outcome Unit × σ)
  | latestToken (c : ObjectClass) : Request (Outcome (Option SyncToken))
  | authenticate (c : ObjectClass) (username : String) (password : Secret) (options : Options) :
      Request (Outcome Uid)
  | resolveUsername (c : ObjectClass) (username : String) (options : Options) : Request (Outcome Uid)
  | schema : Request (Outcome Schema)
  | test : Request (Outcome Unit)
  | scriptOnConnector (script : Script) (options : Options) : Request (Outcome Json)
  | scriptOnResource (script : Script) (options : Options) : Request (Outcome Json)

namespace Request

variable {World View : Type}

def operation : {ρ : Type} → Request ρ → Operation
  | _, create .. => .create
  | _, update .. => .update
  | _, delete .. => .delete
  | _, get .. => .get
  | _, search .. => .search
  | _, sync .. => .sync
  | _, latestToken _ => .sync
  | _, authenticate .. => .authenticate
  | _, resolveUsername .. => .resolveUsername
  | _, schema => .schema
  | _, test => .test
  | _, scriptOnConnector .. => .scriptOnConnector
  | _, scriptOnResource .. => .scriptOnResource

def on : {ρ : Type} → Request ρ → Hosted World → StateM World ρ
  | _, create c attributes options, hosted => hosted.create c attributes options
  | _, update kind c attributes options, hosted => hosted.update kind c attributes options
  | _, delete c uid options, hosted => hosted.delete c uid options
  | _, get c uid options, hosted => hosted.get c uid options
  | _, search c filter? options handler state, hosted => fun w =>
    let ((outcome, w), state) := ((hosted.search c filter? options w).run handler).run state
    ((outcome, state), w)
  | _, sync c token? options handler state, hosted => fun w =>
    let ((outcome, w), state) := ((hosted.sync c token? options w).run handler).run state
    ((outcome, state), w)
  | _, latestToken c, hosted => hosted.latestToken c
  | _, authenticate c username password options, hosted => hosted.authenticate c username password options
  | _, resolveUsername c username options, hosted => hosted.resolveUsername c username options
  | _, schema, hosted => hosted.schema
  | _, test, hosted => hosted.test
  | _, scriptOnConnector script options, hosted => hosted.scriptOnConnector script options
  | _, scriptOnResource script options, hosted => hosted.scriptOnResource script options

/-- What the caller gets without a connector; a handler was not called then. -/
def refused : {ρ : Type} → Request ρ → Breakdown → ρ
  | _, create .., b => .error b
  | _, update .., b => .error b
  | _, delete .., b => .error b
  | _, get .., b => .error b
  | _, search _ _ _ _ state, b => (.error b, state)
  | _, sync _ _ _ _ state, b => (.error b, state)
  | _, latestToken _, b => .error b
  | _, authenticate .., b => .error b
  | _, resolveUsername .., b => .error b
  | _, schema, b => .error b
  | _, test, b => .error b
  | _, scriptOnConnector .., b => .error b
  | _, scriptOnResource .., b => .error b

def failure? : {ρ : Type} → Request ρ → ρ → Option Failure
  | _, create .., result => Outcome.failure? result
  | _, update .., result => Outcome.failure? result
  | _, delete .., result => Outcome.failure? result
  | _, get .., result => Outcome.failure? result
  | _, search .., result => Outcome.failure? result.1
  | _, sync .., result => Outcome.failure? result.1
  | _, latestToken _, result => Outcome.failure? result
  | _, authenticate .., result => Outcome.failure? result
  | _, resolveUsername .., result => Outcome.failure? result
  | _, schema, result => Outcome.failure? result
  | _, test, result => Outcome.failure? result
  | _, scriptOnConnector .., result => Outcome.failure? result
  | _, scriptOnResource .., result => Outcome.failure? result

theorem failure?_refused {ρ : Type} (r : Request ρ) (b : Breakdown) : r.failure? (r.refused b) = b.failure? := by
  cases r <;> rfl

theorem obeys_on {ρ : Type} (r : Request ρ) {hosted : Hosted World} {C : Conduct World}
    (hc : hosted.connector.Obeys C) (hadmits : C.Admits hosted r.operation) (w : World) :
    C.Allows w (r.failure? (r.on hosted w).1) (r.on hosted w).2 := by
  cases r with
  | create c attributes options => exact Hosted.obeys_create hc hadmits c attributes options w
  | update kind c attributes options => exact Hosted.obeys_update hc hadmits kind c attributes options w
  | delete c uid options => exact Hosted.obeys_delete hc hadmits c uid options w
  | get c uid options =>
    refine Hosted.obeys_get hc (fun w hw => ?_) c uid options w
    exact hadmits w _ (.inr ⟨.search, ⟨List.mem_cons_self, ⟨w, hw⟩, nofun⟩, rfl⟩)
  | search c filter? options handler state =>
    refine (Hosted.endsIn_search hc (fun w hw => ?_) c filter? options w).run handler state
    exact hadmits w _ (.inr ⟨.search, ⟨List.mem_cons_self, ⟨w, hw⟩, nofun⟩, rfl⟩)
  | sync c token? options handler state => exact (Hosted.endsIn_sync hc hadmits c token? options w).run handler state
  | latestToken c => exact Hosted.obeys_latestToken hc hadmits c w
  | authenticate c username password options =>
    exact Hosted.obeys_authenticate hc hadmits c username password options w
  | resolveUsername c username options => exact Hosted.obeys_resolveUsername hc hadmits c username options w
  | schema => exact Hosted.obeys_schema hc hadmits w
  | test => exact Hosted.obeys_test hc hadmits w
  | scriptOnConnector script options => exact Hosted.obeys_scriptOnConnector hc hadmits script options w
  | scriptOnResource script options => exact Hosted.obeys_scriptOnResource hc hadmits script options w

theorem leaves_on {ρ : Type} (r : Request ρ) {hosted : Hosted World} {view : World → View}
    (hl : hosted.connector.Leaves view) (w : World) : view (r.on hosted w).2 = view w :=
  r.obeys_on hl.obeys (fun _ _ _ => rfl) w

/-- Whatever a connector at work is asked, a failure of dispatch is reported only for an ability that it misses. -/
theorem reports_on {ρ : Type} (r : Request ρ) {hosted : Hosted World} (hf : hosted.connector.FailsAtWork)
    (w : World) : ∀ e ∈ r.failure? (r.on hosted w).1, hosted.Reports r.operation e := by
  have hobeys : hosted.connector.Obeys (.reporting (hosted.Reports r.operation)) :=
    hf.mono fun hwork e he => .inl (hwork e he)
  refine r.obeys_on hobeys (fun _ e he e' he' => ?_) w
  cases he'
  exact he

end Request

namespace Lease

variable {World AnyConfig : Type}

/-- A pool is refused, or there is none and a connector is constructed for the caller, or one is
borrowed from the pool. -/
inductive Acquired (f : Facade World AnyConfig) (h : Host World AnyConfig) :
    Outcome (Lease World) × Host World AnyConfig → Prop
  | noPool (b : Breakdown) : f.poolNumber? h = (.error b, h) → Acquired f h (.error b, h)
  | unbound (b : Breakdown) : f.poolNumber? h = (.ok none, h) → f.bind = .error b → Acquired f h (.error b, h)
  | constructed (config : AnyConfig) : f.poolNumber? h = (.ok none, h) → f.bind = .ok config →
      Acquired f h ((f.registration.create config h.world).1.map fun connector => ⟨some (.own connector)⟩,
        { h with world := (f.registration.create config h.world).2 })
  | borrowed (number : Nat) (h₁ : Host World AnyConfig) : f.poolNumber? h = (.ok (some number), h₁) →
      Acquired f h ((Host.borrow number h₁).1.map fun x => ⟨some (.pooled number x)⟩, (Host.borrow number h₁).2)

theorem acquired (f : Facade World AnyConfig) (h : Host World AnyConfig) : Acquired f h (acquire f h) := by
  obtain ⟨⟨number?, h₁⟩, hnumber⟩ : ∃ found, f.poolNumber? h = found := ⟨_, rfl⟩
  rw [acquire, Call.bind_apply, hnumber]
  match number? with
  | .error b =>
    obtain rfl := Host.eq_of_poolFor_error hnumber
    exact .noPool b hnumber
  | .ok (some number) =>
    dsimp only
    rw [Call.bind_apply]
    have hborrowed := Acquired.borrowed number h₁ hnumber
    generalize Host.borrow number h₁ = ended at hborrowed ⊢
    obtain ⟨b | x, h₂⟩ := ended
    · exact hborrowed
    · exact hborrowed
  | .ok none =>
    obtain ⟨-, rfl⟩ := Host.eq_of_poolFor_none hnumber
    dsimp only
    rw [Call.bind_apply]
    cases hbind : f.bind with
    | error b => exact .unbound b hnumber hbind
    | ok config => exact .constructed config hnumber hbind

theorem borrow_of_acquire {f : Facade World AnyConfig} {h h' : Host World AnyConfig} {number : Nat}
    {x : Pooled (Connector World)} (hx : acquire f h = (.ok ⟨some (.pooled number x)⟩, h')) :
    ∃ h₁, f.poolNumber? h = (.ok (some number), h₁) ∧ Host.borrow number h₁ = (.ok x, h') := by
  have hacquired := acquired f h
  generalize acquire f h = ended at hx hacquired
  cases hacquired with
  | noPool => cases hx
  | unbound => cases hx
  | constructed config =>
    generalize (f.registration.create config h.world).1 = made at hx
    cases made with
    | error b => cases hx
    | ok connector => cases hx
  | borrowed i h₁ hi =>
    obtain ⟨⟨outcome, h₂⟩, hborrow⟩ : ∃ ended, Host.borrow i h₁ = ended := ⟨_, rfl⟩
    rw [hborrow] at hx
    cases outcome with
    | error b => cases hx
    | ok y =>
      cases hx
      exact ⟨h₁, hi, hborrow⟩

theorem create_of_acquire {f : Facade World AnyConfig} {h h' : Host World AnyConfig} {c : Connector World}
    (hc : acquire f h = (.ok ⟨some (.own c)⟩, h')) :
    ∃ config, f.bind = .ok config ∧ f.registration.create config h.world = (.ok c, h'.world) := by
  have hacquired := acquired f h
  generalize acquire f h = ended at hc hacquired
  cases hacquired with
  | noPool => cases hc
  | unbound => cases hc
  | constructed config _ hbind =>
    cases hcreate : f.registration.create config h.world with
    | mk made w =>
      rw [hcreate] at hc
      cases made with
      | error b => cases hc
      | ok connector =>
        cases hc
        exact ⟨config, hbind, hcreate⟩
  | borrowed number h₁ =>
    generalize (Host.borrow number h₁).1 = outcome at hc
    cases outcome with
    | error b => cases hc
    | ok x => cases hc

end Lease

namespace Facade

variable {World AnyConfig : Type}

def perform (f : Facade World AnyConfig) : {ρ : Type} → Request ρ → StateM (Host World AnyConfig) ρ
  | _, .create c attributes options => f.create c attributes options
  | _, .update kind c attributes options => f.update kind c attributes options
  | _, .delete c uid options => f.delete c uid options
  | _, .get c uid options => f.get c uid options
  | _, .search c filter? options handler state => f.search c filter? options handler state
  | _, .sync c token? options handler state => f.sync c token? options handler state
  | _, .latestToken c => f.latestToken c
  | _, .authenticate c username password options => f.authenticate c username password options
  | _, .resolveUsername c username options => f.resolveUsername c username options
  | _, .schema => f.schema
  | _, .test => f.test
  | _, .scriptOnConnector script options => f.scriptOnConnector script options
  | _, .scriptOnResource script options => f.scriptOnResource script options

/-- What a caller gets of a dispatched operation: its result, or what stands for it if it was refused. -/
def settle {ρ Rest : Type} (refused : Breakdown → ρ) : Outcome ρ × Rest → ρ × Rest
  | (.ok result, rest) => (result, rest)
  | (.error b, rest) => (refused b, rest)

theorem snd_settle {ρ Rest : Type} (refused : Breakdown → ρ) (ended : Outcome ρ × Rest) :
    (settle refused ended).2 = ended.2 := by
  obtain ⟨b | result, rest⟩ := ended
  · rfl
  · rfl

theorem call_eq {α : Type} (f : Facade World AnyConfig) (o : Operation) (run : Hosted World → Call World α)
    (h : Host World AnyConfig) : f.call o run h = settle .error (f.dispatch o (fun hosted => run hosted) h) := by
  unfold call
  generalize f.dispatch o _ h = ended
  obtain ⟨b | outcome, h'⟩ := ended
  · rfl
  · rfl

theorem deliver_eq {ι α σ : Type} (f : Facade World AnyConfig) (o : Operation)
    (run : Hosted World → World → Delivery ι (Outcome α × World)) (handler : Handler ι σ) (state : σ)
    (h : Host World AnyConfig) :
    f.deliver o run handler state h =
      settle (fun b => (.error b, state)) (f.dispatch o (fun hosted w =>
        let ((outcome, w), state) := ((run hosted w).run handler).run state
        ((outcome, state), w)) h) := by
  unfold deliver
  generalize f.dispatch o _ h = ended
  obtain ⟨b | ⟨outcome, state⟩, h'⟩ := ended
  · rfl
  · rfl

/-- Every request is dispatched, and what comes of that is what the caller gets. -/
theorem perform_eq (f : Facade World AnyConfig) {ρ : Type} (r : Request ρ) (h : Host World AnyConfig) :
    f.perform r h = settle r.refused (f.dispatch r.operation r.on h) := by
  cases r with
  | search c filter? options handler state => exact f.deliver_eq .search (·.search c filter? options) handler state h
  | sync c token? options handler state => exact f.deliver_eq .sync (·.sync c token? options) handler state h
  | _ => exact f.call_eq _ _ h

section Dispatch

variable {f : Facade World AnyConfig} {o : Operation} {ρ : Type} {run : Hosted World → StateM World ρ}
  {h h' : Host World AnyConfig}

theorem dispatch_of_unsupported (ho : f.registration.capabilities.supports o = false) :
    f.dispatch o run h = (.error (.failed (.unsupportedOperation o f.key)), h) := by
  unfold dispatch
  rw [ho]
  rfl

theorem dispatch_of_error (ho : f.registration.capabilities.supports o = true) {b : Breakdown}
    (hb : Lease.acquire f h = (.error b, h')) : f.dispatch o run h = (.error b, h') := by
  unfold dispatch
  rw [if_pos ho, Call.bind_apply, hb]

theorem dispatch_of_ok (ho : f.registration.capabilities.supports o = true) {held : Held World}
    (hl : Lease.acquire f h = (.ok ⟨some held⟩, h')) :
    f.dispatch o run h = (.ok (run ⟨f.key, held.connector⟩ h'.world).1,
      (Lease.release ⟨some held⟩ { h' with world := (run ⟨f.key, held.connector⟩ h'.world).2 }).2) := by
  unfold dispatch
  rw [if_pos ho, Call.bind_apply, hl]
  rfl

end Dispatch

end Facade

end Provisioning
