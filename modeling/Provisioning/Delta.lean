import Provisioning.Object

/-! Reported changes. A delta carries the object unless the object is gone, and is built only if its
Uid and that of its object are one. -/

namespace Provisioning

/-- How far a system's changes have been followed. -/
inductive SyncToken where
  | integer (number : Int64)
  | string (text : String)
deriving DecidableEq, Inhabited

namespace SyncToken

def integer? : SyncToken → Option Int64
  | integer i => some i
  | string _ => none

def text : SyncToken → String
  | integer i => toString i.toInt
  | string s => s

end SyncToken

/-- A change that a system reports. -/
structure Delta where
  token : SyncToken
  kind : DeltaKind
  uid : Uid
  previousUid? : Option Uid
  object? : Option ConnectorObject
deriving Inhabited

/-- Changes the Uids and the object of a delta. -/
def Delta.map (d : Delta) (onUid : Uid → Uid) (onObject : ConnectorObject → ConnectorObject) : Delta :=
  { d with
    uid := onUid d.uid
    previousUid? := d.previousUid?.map onUid
    object? := d.object?.map onObject }

/-- A delta being put together. -/
structure DeltaDraft where
  token : SyncToken
  kind : DeltaKind
  uid? : Option Uid := none
  previousUid? : Option Uid := none
  object? : Option ConnectorObject := none

namespace DeltaDraft

/-- A delete has no object, every other kind has one. -/
def checkObject (d : DeltaDraft) : Except Failure Unit :=
  match d.kind, d.object? with
  | .delete, some _ => .error (.invalidArgument .deleteWithObject)
  | .delete, none => .ok ()
  | kind, none => .error (.invalidArgument (.missingObject kind))
  | _, some _ => .ok ()

/-- The Uid given, if the object has no other; else that of the object. -/
def resolveUid (d : DeltaDraft) : Except Failure Uid :=
  match d.uid?, d.object? with
  | some uid, some o =>
    if o.uid = uid then .ok uid else .error (.invalidArgument (.uidMismatch uid o.uid))
  | some uid, none => .ok uid
  | none, some o => .ok o.uid
  | none, none => .error (.invalidArgument .deltaWithoutUid)

def build (d : DeltaDraft) : Except Failure Delta := do
  d.checkObject
  return ⟨d.token, d.kind, ← d.resolveUid, d.previousUid?, d.object?⟩

end DeltaDraft

end Provisioning
