import Provisioning.Merge
import Provisioning.Search

/-! Requests to a connector at work: each is checked, normalized, handed to the ability it needs, and
its answer normalized. -/

namespace Provisioning

namespace UpdateKind

/-- Why an attribute other than the Uid cannot have values added or deleted. -/
def fault? (kind : UpdateKind) (a : Attribute) : Option ArgumentFault :=
  if a.isNull then some (.nullValues a.name)
  else if a.isSpecial then some (.specialAttribute a.name kind)
  else none

/-- A request names each attribute once and holds a usable Uid; to add or delete values, every other
attribute must have a value list and an ordinary name. -/
def validateRequest (kind : UpdateKind) (attributes : List Attribute) : Except Failure AttributeSet := do
  let request ← AttributeSet.ofAttributes attributes
  match request.get? uidName with
  | none => throw (.invalidArgument .updateWithoutUidAttribute)
  | some a =>
    let _ ← Uid.ofAttribute a
  if kind = .replace then return request
  match (request.entries.filter fun a => !a.isUid).findSome? kind.fault? with
  | some fault => throw (.invalidArgument fault)
  | none => return request

end UpdateKind

/-- What a new object starts from: each attribute named once, and no Uid, which the system assigns. -/
def validateCreate (attributes : List Attribute) : Except Failure AttributeSet := do
  let request ← AttributeSet.ofAttributes attributes
  if request.contains uidName then throw (.invalidArgument .createWithUid)
  return request

namespace Hosted

variable {World : Type} (h : Hosted World)

def create (c : ObjectClass) (attributes : List Attribute) (options : Options) : Call World Uid := do
  let request ← Call.ofExcept (validateCreate attributes)
  let n := h.normalization c (← MonadState.get)
  let create ← h.ability .create h.connector.create?
  return n.onUid (← create c (n.onSet request) options)

def delete (c : ObjectClass) (uid : Uid) (options : Options) : Call World Unit := do
  let n := h.normalization c (← MonadState.get)
  let delete ← h.ability .delete h.connector.delete?
  delete c (n.onUid uid) options

/-- The attributes to write so that the stored object becomes what is requested. -/
def mergeWithCurrent (kind : UpdateKind) (c : ObjectClass) (request : AttributeSet) (options : Options) :
    Call World AttributeSet := do
  match request.uid? with
  | none => Call.fail (.invalidArgument .updateWithoutUid)
  | some uid =>
    match ← h.get c uid options.withoutAttributesToGet with
    | none => Call.fail (.unknownUid c.name uid.value)
    | some current => return merge kind request current.attributes

/-- A connector that changes single values is handed the request; any other one that updates is handed
the request merged with what it holds. -/
def update (kind : UpdateKind) (c : ObjectClass) (attributes : List Attribute) (options : Options) :
    Call World Uid := do
  let request ← Call.ofExcept (kind.validateRequest attributes)
  let n := h.normalization c (← MonadState.get)
  let request := n.onSet request
  match h.connector.updateValues? (← MonadState.get) with
  | some updater =>
    let change := match kind with
      | .add => updater.add
      | .delete => updater.remove
      | .replace => updater.replace
    return n.onUid (← change c request options)
  | none =>
    let _ ← h.ability .update h.connector.update?
    let merged ← h.mergeWithCurrent kind c request options
    let update ← h.ability .update h.connector.update?
    return n.onUid (← update c merged options)

def sync (c : ObjectClass) (token? : Option SyncToken) (options : Options) (w : World) :
    Delivery Delta (Outcome Unit × World) :=
  match h.connector.sync? w with
  | none => .done (.error (.failed (h.unsupported .sync)), w)
  | some source =>
    let d := (source.changes c token? options w).deltasNormalized (h.normalization c w)
    match options.restriction? with
    | some names => d.deltasReduced names
    | none => d

def latestToken (c : ObjectClass) : Call World (Option SyncToken) := do
  (← h.ability .sync h.connector.sync?).latestToken c

def authenticate (c : ObjectClass) (username : String) (password : Secret) (options : Options) :
    Call World Uid := do
  if username.isEmpty then Call.fail (.invalidArgument .emptyUsername)
  else
    let n := h.normalization c (← MonadState.get)
    let authenticate ← h.ability .authenticate h.connector.authenticate?
    return n.onUid (← authenticate c username password options)

def resolveUsername (c : ObjectClass) (username : String) (options : Options) : Call World Uid := do
  if username.isEmpty then Call.fail (.invalidArgument .emptyUsername)
  else
    let n := h.normalization c (← MonadState.get)
    let resolve ← h.ability .resolveUsername h.connector.resolveUsername?
    return n.onUid (← resolve c username options)

def schema : Call World Schema := do
  (← h.ability .schema h.connector.schema?)

def test : Call World Unit := do
  (← h.ability .test h.connector.test?)

def scriptOnConnector (script : Script) (options : Options) : Call World Json := do
  (← h.ability .scriptOnConnector h.connector.scriptOnConnector?) script options

def scriptOnResource (script : Script) (options : Options) : Call World Json := do
  (← h.ability .scriptOnResource h.connector.scriptOnResource?) script options

end Hosted

end Provisioning
