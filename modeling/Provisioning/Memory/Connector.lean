import Provisioning.Memory.System
import Provisioning.Named
import Provisioning.Registry
import Provisioning.Search

/-! Connectors to systems kept in memory. They serve to try out a host: every call that a connector gets
is recorded, so that what a host did can be told from the record. -/

namespace Provisioning.Memory

/-- What a connector is called for. -/
inductive Purpose where
  | connect
  | checkAlive
  | dispose
  | query (objectClass : ObjectClass) (query? : Option Filter)
  | create (objectClass : ObjectClass) (attributes : AttributeSet)
  | update (objectClass : ObjectClass) (attributes : AttributeSet)
  | addValues (objectClass : ObjectClass) (attributes : AttributeSet)
  | removeValues (objectClass : ObjectClass) (attributes : AttributeSet)
  | delete (objectClass : ObjectClass) (uid : Uid)
  | sync (objectClass : ObjectClass) (token? : Option SyncToken)
  | latestToken (objectClass : ObjectClass)
  | authenticate (objectClass : ObjectClass) (username : String)
  | resolveUsername (objectClass : ObjectClass) (username : String)
  | schema
  | test
  | scriptOnConnector
  | scriptOnResource

/-- The name of a call. -/
def Purpose.text : Purpose → String
  | connect => "new"
  | checkAlive => "check_alive"
  | dispose => "dispose"
  | query _ _ => "query"
  | create _ _ => "create"
  | update _ _ => "update"
  | addValues _ _ => "add_values"
  | removeValues _ _ => "remove_values"
  | delete _ _ => "delete"
  | sync _ _ => "sync"
  | latestToken _ => "latest_token"
  | authenticate _ _ => "authenticate"
  | resolveUsername _ _ => "resolve_username"
  | schema => "schema"
  | test => "test"
  | scriptOnConnector => "script_on_connector"
  | scriptOnResource => "script_on_resource"

/-- A connector to a system, told apart from the others of that system by its number. -/
structure Link where
  system : String
  number : Nat
deriving DecidableEq, Inhabited

/-- A call that a connector got. -/
structure Record where
  link : Link
  purpose : Purpose
  options : Options := {}

/-- The systems there are, by name, and the calls that connectors to them got. -/
structure Site where
  systems : Named System := []
  record : List Record := []

namespace Site

def system (w : Site) (name : String) : System := (w.systems.lookup name).getD {}

def change (w : Site) (name : String) (f : System → System) : Site :=
  { w with systems := w.systems.put name (f (w.system name)) }

def note (w : Site) (link : Link) (purpose : Purpose) (options : Options := {}) : Site :=
  { w with record := w.record ++ [⟨link, purpose, options⟩] }

end Site

namespace Link

variable (link : Link)

def conduct (w : Site) : Conduct := (w.system link.system).conduct

/-- Records a call and carries it out, unless the conduct of the system interferes. -/
def perform {α : Type} (purpose : Purpose) (options : Options)
    (act : System → Except Failure α × System) : Call Site α := fun w =>
  let w := w.note link purpose options
  match (link.conduct w).interference? purpose.text with
  | some b => (.error b, w)
  | none =>
    let (result, s) := act (w.system link.system)
    (Outcome.ofExcept result, w.change link.system fun _ => s)

/-- Records a call that asks for something and changes nothing. -/
def ask {α : Type} (purpose : Purpose) (options : Options) (answer : System → Except Failure α) :
    Call Site α := link.perform purpose options fun s => (answer s, s)

/-- Passes on what a query finds. -/
def execute (c : ObjectClass) (query? : Option Filter) (options : Options) (w : Site) :
    Delivery ConnectorObject (Outcome SearchResult × Site) :=
  let w := w.change link.system fun s => { s with queries := s.queries + 1 }
  let w := w.note link (.query c query?) options
  let s := w.system link.system
  match s.conduct.interference? "query" with
  | some b => .done (.error b, w)
  | none =>
    if s.conduct.ignoresAnswers then .regardless (s.searchResult, w) (s.find c query?)
    else .untilStopped (s.searchResult, w) (s.find c query?)

def runner : QueryRunner Site Filter where
  translator _ _ w filter? := (link.conduct w).dialect.language.translate filter?
  execute := link.execute

/-- Passes on changes up to one that cannot be reported. -/
def pass (w : Site) : List DeltaDraft → Delivery Delta (Outcome Unit × Site)
  | [] => .done (.ok (), w)
  | draft :: rest =>
    match draft.build with
    | .error f => .done (.error (.failed f), w)
    | .ok d => .pass d fun go =>
        if go || (link.conduct w).ignoresAnswers then pass w rest else .done (.ok (), w)

def changes (c : ObjectClass) (token? : Option SyncToken) (options : Options) (w : Site) :
    Delivery Delta (Outcome Unit × Site) :=
  let w := w.note link (.sync c token?) options
  match (link.conduct w).interference? "sync" with
  | some b => .done (.error b, w)
  | none => link.pass w ((w.system link.system).changesAfter token?)

/-- A script comes back as it was given. -/
def echo (s : Script) : Json :=
  .object [("language", .string s.language), ("text", .string s.text), ("arguments", .object s.arguments)]

/-- Whether the connection has been lost. -/
def isLost (w : Site) : Bool := !(link.conduct w).alive || (link.conduct w).deadLinks.contains link.number

/-- Whether the system has an ability decides whether its connector has it. -/
def ability {α : Type} (c : Capability) (a : α) (w : Site) : Option α :=
  if (link.conduct w).abilities.contains c then some a else none

def updater : ValueUpdater Site where
  replace c s o := link.perform (.update c s) o (System.update c s)
  add c s o := link.ask (.addValues c s) o fun _ => System.uidOf s
  remove c s o := link.ask (.removeValues c s) o fun _ => System.uidOf s

def connector : Connector Site where
  checkAlive w :=
    let w := w.note link .checkAlive
    (if link.isLost w then .error (.failed (.connectionFailed "connection lost" none)) else .ok (), w)
  dispose w :=
    let w := w.note link .dispose
    (if (link.conduct w).failsToDispose then .error (.internal (.other "dispose failed")) else .ok (), w)
  normalizer? w := (link.conduct w).normalizer?
  create? := link.ability .create fun c s o => link.perform (.create c s) o (System.create c s)
  delete? := link.ability .delete fun c uid o => link.perform (.delete c uid) o (System.delete c uid)
  update? := link.ability .update link.updater.replace
  updateValues? := link.ability .updateAttributeValues link.updater
  search? := link.ability .search link.runner.searcher
  sync? := link.ability .sync
    { changes := link.changes
      latestToken := fun c => link.ask (.latestToken c) {} fun s => .ok s.latestToken }
  authenticate? := link.ability .authenticate fun c username password o =>
    link.ask (.authenticate c username) o (System.authenticate username password)
  resolveUsername? := link.ability .resolveUsername fun c username o =>
    link.ask (.resolveUsername c username) o (System.resolve c username)
  schema? := link.ability .schema (link.ask .schema {} fun s => .ok s.schema)
  test? := link.ability .test (link.ask .test {} fun _ => .ok ())
  scriptOnConnector? := link.ability .scriptOnConnector fun s o =>
    link.ask .scriptOnConnector o fun _ => .ok (echo s)
  scriptOnResource? := link.ability .scriptOnResource fun s o =>
    link.ask .scriptOnResource o fun _ => .ok (echo s)

end Link

/-- A configuration: the name of a system. -/
structure SystemName where
  name : String
deriving DecidableEq, Inhabited

namespace SystemName

def malformed (text : String) : Failure := .invalidConfiguration (.other text)

/-- Properties name a system as their `backend`. -/
def ofProperties : Json → Except Failure SystemName
  | .object members =>
    match members.lookup "backend" with
    | some (.string name) => .ok ⟨name⟩
    | none | some .null => .error (malformed "backend is missing")
    | some _ => .error (malformed "backend must be a string")
  | _ => .error (malformed "backend is missing")

def validate (n : SystemName) : Except Failure Unit :=
  if n.name.isEmpty then .error (malformed "backend is required") else .ok ()

/-- Makes a connector, if the system exists and accepts one. -/
def connect (n : SystemName) : Call Site (Connector Site) := fun w =>
  match w.systems.lookup n.name with
  | none => (.error (.failed (.connectionFailed ("no backend " ++ n.name) none)), w)
  | some s =>
    match s.conduct.refusal? with
    | some f => (.error (.failed f), w)
    | none =>
      let link : Link := ⟨n.name, s.links + 1⟩
      let w := w.change n.name fun s => { s with links := s.links + 1 }
      (.ok link.connector, w.note link .connect)

end SystemName

/-- Connectors to systems in memory, with the capabilities that they are to declare. -/
def connectorClass (capabilities : CapabilitySet) : ConnectorClass Site SystemName where
  capabilities
  decode := SystemName.ofProperties
  validate := SystemName.validate
  create := SystemName.connect

end Provisioning.Memory
