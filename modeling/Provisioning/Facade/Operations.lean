import Provisioning.Lease
import Provisioning.Request

/-! What facades do: every operation of a connector as one call. The call is refused if the connector
does not declare the operation; else a connector is leased, the operation runs on it, and the connector
is released whatever came of the operation, whose result is that of the call. -/

namespace Provisioning

namespace Facade

variable {World AnyConfig α ρ σ : Type}

/-- Runs an operation on a leased connector. The call fails only where no connector could be had; else
it gives what the operation came to. -/
def dispatch (f : Facade World AnyConfig) (o : Operation) (run : Hosted World → StateM World ρ) :
    Call (Host World AnyConfig) ρ := do
  if f.registration.capabilities.supports o then
    let lease ← Lease.acquire f
    match lease.connector with
    | .error failure => Call.fail failure
    | .ok connector => fun h =>
      let (result, world) := run ⟨f.key, connector⟩ h.world
      (.ok result, (lease.release { h with world }).2)
  else Call.fail (.unsupportedOperation o f.key)

/-- Runs an operation whose result may itself be a breakdown. -/
def call (f : Facade World AnyConfig) (o : Operation) (run : Hosted World → Call World α) :
    Call (Host World AnyConfig) α := fun h =>
  match f.dispatch o (fun hosted => run hosted) h with
  | (.ok outcome, h) => (outcome, h)
  | (.error b, h) => (.error b, h)

/-- Runs an operation that hands items to the caller's handler. -/
def deliver {ι : Type} (f : Facade World AnyConfig) (o : Operation)
    (run : Hosted World → World → Delivery ι (Outcome α × World)) (handler : Handler ι σ) (state : σ) :
    StateM (Host World AnyConfig) (Outcome α × σ) := fun h =>
  let result := f.dispatch o (fun hosted w =>
    let ((outcome, w), state) := ((run hosted w).run handler).run state
    ((outcome, state), w)) h
  match result with
  | (.ok (outcome, state), h) => ((outcome, state), h)
  | (.error b, h) => ((.error b, state), h)

def create (f : Facade World AnyConfig) (c : ObjectClass) (attributes : List Attribute) (options : Options) :
    Call (Host World AnyConfig) Uid := f.call .create fun hosted => hosted.create c attributes options

def update (f : Facade World AnyConfig) (kind : UpdateKind) (c : ObjectClass) (attributes : List Attribute)
    (options : Options) : Call (Host World AnyConfig) Uid :=
  f.call .update fun hosted => hosted.update kind c attributes options

def delete (f : Facade World AnyConfig) (c : ObjectClass) (uid : Uid) (options : Options) :
    Call (Host World AnyConfig) Unit := f.call .delete fun hosted => hosted.delete c uid options

def get (f : Facade World AnyConfig) (c : ObjectClass) (uid : Uid) (options : Options) :
    Call (Host World AnyConfig) (Option ConnectorObject) :=
  f.call .get fun hosted => hosted.get c uid options

def search (f : Facade World AnyConfig) (c : ObjectClass) (filter? : Option Filter) (options : Options)
    (handler : Handler ConnectorObject σ) (state : σ) :
    StateM (Host World AnyConfig) (Outcome SearchResult × σ) :=
  f.deliver .search (fun hosted => hosted.search c filter? options) handler state

def sync (f : Facade World AnyConfig) (c : ObjectClass) (token? : Option SyncToken) (options : Options)
    (handler : Handler Delta σ) (state : σ) : StateM (Host World AnyConfig) (Outcome Unit × σ) :=
  f.deliver .sync (fun hosted => hosted.sync c token? options) handler state

def latestToken (f : Facade World AnyConfig) (c : ObjectClass) :
    Call (Host World AnyConfig) (Option SyncToken) := f.call .sync fun hosted => hosted.latestToken c

def authenticate (f : Facade World AnyConfig) (c : ObjectClass) (username : String) (password : Secret)
    (options : Options) : Call (Host World AnyConfig) Uid :=
  f.call .authenticate fun hosted => hosted.authenticate c username password options

def resolveUsername (f : Facade World AnyConfig) (c : ObjectClass) (username : String) (options : Options) :
    Call (Host World AnyConfig) Uid :=
  f.call .resolveUsername fun hosted => hosted.resolveUsername c username options

def schema (f : Facade World AnyConfig) : Call (Host World AnyConfig) Schema :=
  f.call .schema fun hosted => hosted.schema

def test (f : Facade World AnyConfig) : Call (Host World AnyConfig) Unit :=
  f.call .test fun hosted => hosted.test

def scriptOnConnector (f : Facade World AnyConfig) (script : Script) (options : Options) :
    Call (Host World AnyConfig) Json :=
  f.call .scriptOnConnector fun hosted => hosted.scriptOnConnector script options

def scriptOnResource (f : Facade World AnyConfig) (script : Script) (options : Options) :
    Call (Host World AnyConfig) Json :=
  f.call .scriptOnResource fun hosted => hosted.scriptOnResource script options

end Facade

end Provisioning
