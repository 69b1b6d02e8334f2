import Provisioning.Proofs.Checks
import Provisioning.Proofs.Frame

/-! The conduct of connectors at work. A request reaches a connector only through the connector's abilities. So whatever
holds of all that these do to the world, and of the failures that they report, holds of every request, if only it
allows the failures that the library adds: where a request is not in order, where the object is not there, and where
an ability is missing. In particular a request leaves alone what the abilities leave alone, and it reports a failure
of dispatch only for an ability that is missing. -/

namespace Provisioning

variable {World View α β : Type}

/-- The failure that was reported. Code that breaks off reports none. -/
def Breakdown.failure? : Breakdown → Option Failure
  | failed e => some e
  | aborted => none

def Outcome.failure? : Outcome α → Option Failure
  | .ok _ => none
  | .error b => b.failure?

theorem Outcome.failure?_map (f : α → β) (outcome : Outcome α) :
    Outcome.failure? (outcome.map f) = Outcome.failure? outcome := by
  cases outcome with
  | ok a => rfl
  | error b => rfl

/-- What may come of a call: how the world may change, and which failure, if any, may be reported with that. -/
structure Conduct (World : Type) where
  Allows : World → Option Failure → World → Prop
  refl : ∀ w, Allows w none w
  trans : ∀ {w w' w'' e?}, Allows w none w' → Allows w' e? w'' → Allows w e? w''

namespace Conduct

def leaving (view : World → View) : Conduct World where
  Allows w _ w' := view w' = view w
  refl _ := rfl
  trans h h' := h'.trans h

def reporting (P : Failure → Prop) : Conduct World where
  Allows _ e? _ := ∀ e ∈ e?, P e
  refl _ _ he := nomatch he
  trans _ h' := h'

end Conduct

def Call.Obeys (C : Conduct World) (call : Call World α) : Prop :=
  ∀ w, C.Allows w (Outcome.failure? (call w).1) (call w).2

namespace Call

variable {C : Conduct World}

theorem obeys_pure (a : α) : (pure a : Call World α).Obeys C := C.refl

theorem obeys_get : (MonadState.get : Call World World).Obeys C := C.refl

theorem obeys_ofExcept {x : Except Failure α} (hx : ∀ e, x = .error e → ∀ w, C.Allows w (some e) w) :
    (ofExcept x : Call World α).Obeys C := by
  intro w
  cases x with
  | ok a => exact C.refl w
  | error e => exact hx e rfl w

theorem obeys_fail {e : Failure} (he : ∀ w, C.Allows w (some e) w) : (fail e : Call World α).Obeys C := he

/-- What comes second needs to be considered only where it comes about. -/
theorem Obeys.bind {call : Call World α} {k : α → Call World β} (hc : call.Obeys C)
    (hk : ∀ {w a}, (call w).1 = .ok a → (k a).Obeys C) : (call >>= k).Obeys C := by
  intro w
  have hw := hc w
  rw [bind_apply]
  cases hcall : call w with
  | mk outcome w' =>
    rw [hcall] at hw
    cases outcome with
    | ok a => exact C.trans hw (hk (congrArg Prod.fst hcall) w')
    | error b => exact hw

end Call

/-- A connector all of whose abilities keep to the conduct. What comes of constructing, testing and giving up the
connector is another matter. -/
structure Connector.Obeys (C : Conduct World) (connector : Connector World) : Prop where
  create : ∀ {w f}, connector.create? w = some f → ∀ c attributes options, (f c attributes options).Obeys C
  delete : ∀ {w f}, connector.delete? w = some f → ∀ c uid options, (f c uid options).Obeys C
  update : ∀ {w f}, connector.update? w = some f → ∀ c attributes options, (f c attributes options).Obeys C
  replaceValues : ∀ {w u}, connector.updateValues? w = some u → ∀ c attributes options,
    (u.replace c attributes options).Obeys C
  addValues : ∀ {w u}, connector.updateValues? w = some u → ∀ c attributes options,
    (u.add c attributes options).Obeys C
  removeValues : ∀ {w u}, connector.updateValues? w = some u → ∀ c attributes options,
    (u.remove c attributes options).Obeys C
  search : ∀ {w f}, connector.search? w = some f → ∀ c filter? options w',
    (f c filter? options w').EndsIn fun r => C.Allows w' (Outcome.failure? r.1) r.2
  changes : ∀ {w s}, connector.sync? w = some s → ∀ c token? options w',
    (s.changes c token? options w').EndsIn fun r => C.Allows w' (Outcome.failure? r.1) r.2
  latestToken : ∀ {w s}, connector.sync? w = some s → ∀ c, (s.latestToken c).Obeys C
  authenticate : ∀ {w f}, connector.authenticate? w = some f → ∀ c username password options,
    (f c username password options).Obeys C
  resolveUsername : ∀ {w f}, connector.resolveUsername? w = some f → ∀ c username options,
    (f c username options).Obeys C
  schema : ∀ {w f}, connector.schema? w = some f → f.Obeys C
  test : ∀ {w f}, connector.test? w = some f → f.Obeys C
  scriptOnConnector : ∀ {w f}, connector.scriptOnConnector? w = some f → ∀ script options, (f script options).Obeys C
  scriptOnResource : ∀ {w f}, connector.scriptOnResource? w = some f → ∀ script options, (f script options).Obeys C

namespace Connector

variable {connector : Connector World}

theorem Obeys.mono {C C' : Conduct World} (hc : connector.Obeys C)
    (hC : ∀ {w e? w'}, C.Allows w e? w' → C'.Allows w e? w') : connector.Obeys C' where
  create hf c attributes options w := hC (hc.create hf c attributes options w)
  delete hf c uid options w := hC (hc.delete hf c uid options w)
  update hf c attributes options w := hC (hc.update hf c attributes options w)
  replaceValues hu c attributes options w := hC (hc.replaceValues hu c attributes options w)
  addValues hu c attributes options w := hC (hc.addValues hu c attributes options w)
  removeValues hu c attributes options w := hC (hc.removeValues hu c attributes options w)
  search hf c filter? options w := (hc.search hf c filter? options w).mono fun _ => hC
  changes hs c token? options w := (hc.changes hs c token? options w).mono fun _ => hC
  latestToken hs c w := hC (hc.latestToken hs c w)
  authenticate hf c username password options w := hC (hc.authenticate hf c username password options w)
  resolveUsername hf c username options w := hC (hc.resolveUsername hf c username options w)
  schema hf w := hC (hc.schema hf w)
  test hf w := hC (hc.test hf w)
  scriptOnConnector hf script options w := hC (hc.scriptOnConnector hf script options w)
  scriptOnResource hf script options w := hC (hc.scriptOnResource hf script options w)

theorem Leaves.obeys {view : World → View} (hl : connector.Leaves view) : connector.Obeys (.leaving view) where
  create := hl.create
  delete := hl.delete
  update := hl.update
  replaceValues := hl.replaceValues
  addValues := hl.addValues
  removeValues := hl.removeValues
  search := hl.search
  changes := hl.changes
  latestToken := hl.latestToken
  authenticate := hl.authenticate
  resolveUsername := hl.resolveUsername
  schema := hl.schema
  test := hl.test
  scriptOnConnector := hl.scriptOnConnector
  scriptOnResource := hl.scriptOnResource

/-- A connector whose abilities report no failure of dispatch. -/
def FailsAtWork (connector : Connector World) : Prop :=
  connector.Obeys (.reporting fun e => e.isDispatchFailure = false)

end Connector

/-- There are moments at which the connector does not have the ability for an operation. -/
def Connector.Lacks (connector : Connector World) : Operation → Prop
  | .authenticate => ∃ w, connector.authenticate? w = none
  | .create => ∃ w, connector.create? w = none
  | .delete => ∃ w, connector.delete? w = none
  | .resolveUsername => ∃ w, connector.resolveUsername? w = none
  | .schema => ∃ w, connector.schema? w = none
  | .scriptOnConnector => ∃ w, connector.scriptOnConnector? w = none
  | .scriptOnResource => ∃ w, connector.scriptOnResource? w = none
  | .search => ∃ w, connector.search? w = none
  | .sync => ∃ w, connector.sync? w = none
  | .test => ∃ w, connector.test? w = none
  | .update => ∃ w, connector.update? w = none
  | .get | .validate => False

/-- The operations that one comes down to: an object is got by a search, and an update is merged with what a search
finds. -/
def Operation.needs : Operation → List Operation
  | .get => [.search]
  | .update => [.update, .search]
  | o => [o]

/-- The connector may turn out, at work, to lack an ability that an operation comes down to. An update that is not
merged does without. -/
structure Connector.Misses (connector : Connector World) (asked o : Operation) : Prop where
  needed : o ∈ asked.needs
  lacking : connector.Lacks o
  merged : asked = .update → ∃ w, connector.updateValues? w = none

/-- The failures that may be reported when a connector at work is asked for an operation: none of dispatch, unless
the connector misses an ability. -/
def Hosted.Reports (h : Hosted World) (asked : Operation) (e : Failure) : Prop :=
  e.isDispatchFailure = false ∨ ∃ o, h.connector.Misses asked o ∧ e = h.unsupported o

def Conduct.Admits (C : Conduct World) (h : Hosted World) (asked : Operation) : Prop :=
  ∀ w e, h.Reports asked e → C.Allows w (some e) w

section Checks

theorem isDispatchFailure_of_validateCreate {attributes : List Attribute} {e : Failure}
    (he : validateCreate attributes = .error e) : e.isDispatchFailure = false := by
  obtain ⟨fault, rfl⟩ := fault_of_validateCreate he
  rfl

theorem UpdateKind.isDispatchFailure_of_validateRequest {kind : UpdateKind} {attributes : List Attribute}
    {e : Failure} (he : kind.validateRequest attributes = .error e) : e.isDispatchFailure = false := by
  obtain ⟨fault, rfl⟩ := fault_of_validateRequest he
  rfl

end Checks

namespace Hosted

variable {C : Conduct World} {h : Hosted World}

/-- A request that uses an ability does what the ability does, or reports that it is missing. -/
theorem obeys_using {o : Operation} {ability? : World → Option α} {k : α → Call World β}
    (hmissing : ∀ w, ability? w = none → C.Allows w (some (h.unsupported o)) w)
    (hk : ∀ {w a}, ability? w = some a → (k a).Obeys C) : (h.ability o ability? >>= k).Obeys C := by
  refine Call.Obeys.bind (fun w => ?_) fun ha => hk (eq_some_of_ability ha)
  rw [ability_apply]
  cases ha : ability? w with
  | none => exact hmissing w ha
  | some a => exact C.refl w

theorem obeys_using_one {o : Operation} (hadmits : C.Admits h o) (hneeds : o.needs = [o])
    {ability? : World → Option α} (hlacks : ∀ w, ability? w = none → h.connector.Lacks o) {k : α → Call World β}
    (hk : ∀ {w a}, ability? w = some a → (k a).Obeys C) : (h.ability o ability? >>= k).Obeys C := by
  refine obeys_using (fun w hw => hadmits w _ (.inr ⟨o, ⟨?_, hlacks w hw, ?_⟩, rfl⟩)) hk
  · exact hneeds ▸ List.mem_singleton_self o
  · rintro rfl
    cases hneeds

variable (hc : h.connector.Obeys C)
include hc

theorem obeys_create (hadmits : C.Admits h .create) (c : ObjectClass) (attributes : List Attribute)
    (options : Options) : (h.create c attributes options).Obeys C := by
  refine (Call.obeys_ofExcept fun e he w => hadmits w e (.inl (isDispatchFailure_of_validateCreate he))).bind
    fun _ => Call.obeys_get.bind fun _ => obeys_using_one hadmits rfl (fun w hw => ⟨w, hw⟩) fun hf => ?_
  exact Call.Obeys.bind (hc.create hf c _ options) fun _ => Call.obeys_pure _

theorem obeys_delete (hadmits : C.Admits h .delete) (c : ObjectClass) (uid : Uid) (options : Options) :
    (h.delete c uid options).Obeys C :=
  Call.obeys_get.bind fun _ => obeys_using_one hadmits rfl (fun w hw => ⟨w, hw⟩) fun hf => hc.delete hf c _ options

theorem endsIn_search (hmissing : ∀ w, h.connector.search? w = none → C.Allows w (some (h.unsupported .search)) w)
    (c : ObjectClass) (filter? : Option Filter) (options : Options) (w : World) :
    (h.search c filter? options w).EndsIn fun r => C.Allows w (Outcome.failure? r.1) r.2 := by
  unfold search
  cases hs : h.connector.search? w with
  | none => exact hmissing w hs
  | some searcher =>
    simp only [refine_eq]
    exact ((hc.search hs c _ _ w).filterItems _).mapItems _

theorem obeys_get (hmissing : ∀ w, h.connector.search? w = none → C.Allows w (some (h.unsupported .search)) w)
    (c : ObjectClass) (uid : Uid) (options : Options) : (h.get c uid options).Obeys C := by
  intro w
  have hsearch := (endsIn_search hc hmissing c (some (.leaf .equals uid.toAttribute)) options w).run keepLast none
  rwa [← Outcome.failure?_map] at hsearch

theorem obeys_mergeWithCurrent (hadmits : C.Admits h .update) (hmerged : ∃ w, h.connector.updateValues? w = none)
    (kind : UpdateKind) (c : ObjectClass) (request : AttributeSet) (options : Options) :
    (h.mergeWithCurrent kind c request options).Obeys C := by
  have hmissing : ∀ w, h.connector.search? w = none → C.Allows w (some (h.unsupported .search)) w := fun w hw =>
    hadmits w _ (.inr ⟨.search, ⟨by decide, ⟨w, hw⟩, fun _ => hmerged⟩, rfl⟩)
  unfold mergeWithCurrent
  split
  · exact Call.obeys_fail fun w => hadmits w _ (.inl rfl)
  · refine (obeys_get hc hmissing c _ _).bind fun _ => ?_
    split
    · exact Call.obeys_fail fun w => hadmits w _ (.inl rfl)
    · exact Call.obeys_pure _

theorem obeys_update (hadmits : C.Admits h .update) (kind : UpdateKind) (c : ObjectClass)
    (attributes : List Attribute) (options : Options) : (h.update kind c attributes options).Obeys C := by
  refine (Call.obeys_ofExcept fun e he w =>
    hadmits w e (.inl (UpdateKind.isDispatchFailure_of_validateRequest he))).bind
      fun _ => Call.obeys_get.bind fun _ => Call.obeys_get.bind fun _ => ?_
  split
  · next hu =>
    refine Call.Obeys.bind ?_ fun _ => Call.obeys_pure _
    cases kind with
    | add => exact hc.addValues hu c _ options
    | delete => exact hc.removeValues hu c _ options
    | replace => exact hc.replaceValues hu c _ options
  · next hu =>
    have hmissing : ∀ w, h.connector.update? w = none → C.Allows w (some (h.unsupported .update)) w := fun w hw =>
      hadmits w _ (.inr ⟨.update, ⟨by decide, ⟨w, hw⟩, fun _ => ⟨_, hu⟩⟩, rfl⟩)
    refine obeys_using hmissing fun _ => (obeys_mergeWithCurrent hc hadmits ⟨_, hu⟩ kind c _ options).bind
      fun _ => obeys_using hmissing fun hf => ?_
    exact Call.Obeys.bind (hc.update hf c _ options) fun _ => Call.obeys_pure _

theorem obeys_authenticate (hadmits : C.Admits h .authenticate) (c : ObjectClass) (username : String)
    (password : Secret) (options : Options) : (h.authenticate c username password options).Obeys C := by
  unfold authenticate
  split
  · exact Call.obeys_fail fun w => hadmits w _ (.inl rfl)
  · refine Call.obeys_get.bind fun _ => obeys_using_one hadmits rfl (fun w hw => ⟨w, hw⟩) fun hf => ?_
    exact Call.Obeys.bind (hc.authenticate hf c username password options) fun _ => Call.obeys_pure _

theorem obeys_resolveUsername (hadmits : C.Admits h .resolveUsername) (c : ObjectClass) (username : String)
    (options : Options) : (h.resolveUsername c username options).Obeys C := by
  unfold resolveUsername
  split
  · exact Call.obeys_fail fun w => hadmits w _ (.inl rfl)
  · refine Call.obeys_get.bind fun _ => obeys_using_one hadmits rfl (fun w hw => ⟨w, hw⟩) fun hf => ?_
    exact Call.Obeys.bind (hc.resolveUsername hf c username options) fun _ => Call.obeys_pure _

theorem endsIn_sync (hadmits : C.Admits h .sync) (c : ObjectClass) (token? : Option SyncToken) (options : Options)
    (w : World) : (h.sync c token? options w).EndsIn fun r => C.Allows w (Outcome.failure? r.1) r.2 := by
  unfold sync
  cases hs : h.connector.sync? w with
  | none => exact hadmits w _ (.inr ⟨.sync, ⟨by decide, ⟨w, hs⟩, nofun⟩, rfl⟩)
  | some source =>
    have hd := (hc.changes hs c token? options w).mapItems (h.normalization c w).onDelta
    dsimp only
    split
    · exact hd.mapItems _
    · exact hd

theorem obeys_latestToken (hadmits : C.Admits h .sync) (c : ObjectClass) : (h.latestToken c).Obeys C :=
  obeys_using_one hadmits rfl (fun w hw => ⟨w, hw⟩) fun hs => hc.latestToken hs c

theorem obeys_schema (hadmits : C.Admits h .schema) : h.schema.Obeys C :=
  obeys_using_one hadmits rfl (fun w hw => ⟨w, hw⟩) hc.schema

theorem obeys_test (hadmits : C.Admits h .test) : h.test.Obeys C :=
  obeys_using_one hadmits rfl (fun w hw => ⟨w, hw⟩) hc.test

theorem obeys_scriptOnConnector (hadmits : C.Admits h .scriptOnConnector) (script : Script) (options : Options) :
    (h.scriptOnConnector script options).Obeys C :=
  obeys_using_one hadmits rfl (fun w hw => ⟨w, hw⟩) fun hf => hc.scriptOnConnector hf script options

theorem obeys_scriptOnResource (hadmits : C.Admits h .scriptOnResource) (script : Script) (options : Options) :
    (h.scriptOnResource script options).Obeys C :=
  obeys_using_one hadmits rfl (fun w hw => ⟨w, hw⟩) fun hf => hc.scriptOnResource hf script options

end Hosted

end Provisioning
