import Provisioning.Connector
import Provisioning.Filter.Dialect

/-! A system kept in memory: its objects and the changes made to them. It offers what a connector may
ask of it; where systems differ, and where they fail, its conduct says so. -/

namespace Provisioning.Memory

/-- How a system behaves where systems differ, and when it fails. -/
structure Conduct where
  abilities : List Capability := Capability.all.erase .updateAttributeValues
  normalizer? : Option Normalizer := none
  dialect : Dialect := {}
  /-- Queries are not looked at: every object of the class is passed. -/
  ignoresQueries : Bool := false
  /-- Objects and changes are passed on after the receiver has asked to stop. -/
  ignoresAnswers : Bool := false
  /-- Objects of every class are passed. -/
  ignoresClasses : Bool := false
  cookie? : Option String := none
  /-- The number of a query that fails after all it found was passed. -/
  failingQuery? : Option Nat := none
  alive : Bool := true
  /-- The numbers of connectors that have lost their connection. -/
  deadLinks : List Nat := []
  /-- Why no connector can be made. -/
  refusal? : Option Failure := none
  failsToDispose : Bool := false
  /-- The name of the call that breaks off. -/
  abortsOn? : Option String := none
  /-- A failure of every call, or of those of one name. -/
  fault? : Option (Failure × Option String) := none

structure System where
  objects : List ConnectorObject := []
  changes : List DeltaDraft := []
  schema : Schema := {}
  conduct : Conduct := {}
  /-- How many connectors were made. -/
  links : Nat := 0
  /-- How many Uids were given out. -/
  uids : Nat := 0
  /-- How many queries were run. -/
  queries : Nat := 0

/-- How a call of some name breaks down before it starts, if it does. -/
def Conduct.interference? (b : Conduct) (call : String) : Option Breakdown :=
  if b.abortsOn? = some call then some .aborted
  else
    match b.fault? with
    | some (f, only?) => if only?.all (· = call) then some (.failed f) else none
    | none => none

namespace System

/-- Notes a change under the next number. -/
def note (s : System) (kind : DeltaKind) (uid : Uid) (object? : Option ConnectorObject) : System :=
  { s with changes := s.changes ++
      [{ token := .integer (Int64.ofNat (s.changes.length + 1)), kind, uid? := some uid, object? }] }

/-- Adds an object under a Uid that the system gives it; no two objects have one name. -/
def create (c : ObjectClass) (attributes : AttributeSet) (s : System) : Except Failure Uid × System :=
  match attributes.name? with
  | none => (.error (.invalidArgument (.other "__NAME__ is required")), s)
  | some name =>
    if s.objects.any fun o => o.name? = some name then (.error (.objectAlreadyExists name.value), s)
    else
      let uid := "U" ++ toString (s.uids + 1)
      let s := { s with uids := s.uids + 1 }
      match (((Draft.empty.withClass c).withAttributes attributes.toList).withUid uid).build with
      | .error f => (.error f, s)
      | .ok o => (.ok ⟨uid⟩, { s with objects := s.objects ++ [o] }.note .create ⟨uid⟩ (some o))

def delete (c : ObjectClass) (uid : Uid) (s : System) : Except Failure Unit × System :=
  if s.objects.any fun o => o.uid = uid then
    (.ok (), { s with objects := s.objects.eraseP fun o => o.uid = uid }.note .delete uid none)
  else (.error (.unknownUid c.name uid.value), s)

/-- The Uid that attributes hold. -/
def uidOf (attributes : AttributeSet) : Except Failure Uid :=
  match attributes.uid? with
  | some uid => .ok uid
  | none => .error (.invalidArgument (.other "__UID__ is required"))

/-- Puts an attribute in place, or takes it away if it has no values. -/
def write (s : AttributeSet) (a : Attribute) : AttributeSet :=
  if a.values.isEmpty then s.erase a.name else s.insert a

/-- Writes attributes to the object with their Uid. A system that changes single values leaves the
writing to another time. -/
def update (c : ObjectClass) (attributes : AttributeSet) (s : System) : Except Failure Uid × System :=
  match uidOf attributes with
  | .error f => (.error f, s)
  | .ok uid =>
    if s.conduct.abilities.contains .updateAttributeValues then (.ok uid, s)
    else
      match s.objects.find? fun o => o.uid = uid with
      | none => (.error (.unknownUid c.name uid.value), s)
      | some o =>
        let written := attributes.toList.foldl write o.attributes
        match ((Draft.empty.withClass c).withAttributes written.toList).build with
        | .error f => (.error f, s)
        | .ok new =>
          let place := s.objects.findIdx fun o => o.uid = uid
          (.ok uid, { s with objects := s.objects.set place new }.note .update uid (some new))

/-- The first object that a user knows by a name. -/
def called (s : System) (username : String) : Option ConnectorObject :=
  s.objects.find? fun o => o.name? = some ⟨username⟩

def authenticate (username : String) (password : Secret) (s : System) : Except Failure Uid :=
  match s.called username with
  | some o =>
    if ((o.get? "__PASSWORD__").bind Attribute.singleString?).any password.accepts then .ok o.uid
    else .error .authenticationFailed
  | none => .error .authenticationFailed

def resolve (c : ObjectClass) (username : String) (s : System) : Except Failure Uid :=
  match s.called username with
  | some o => .ok o.uid
  | none => .error (.unknownUid c.name username)

/-- The objects that a query finds. -/
def find (s : System) (c : ObjectClass) (query? : Option Filter) : List ConnectorObject :=
  s.objects.filter fun o =>
    (s.conduct.ignoresClasses || o.objectClass == c) &&
      (s.conduct.ignoresQueries || query?.all fun q => q.accepts o)

/-- What the query run last ends with. -/
def searchResult (s : System) : Outcome SearchResult :=
  if s.conduct.failingQuery? = some s.queries then
    .error (.failed (.operationFailed ("query " ++ toString s.queries ++ " failed") none))
  else
    match s.conduct.cookie? with
    | some cookie => .ok ⟨some (cookie ++ "-" ++ toString s.queries), Int64.ofNat s.queries⟩
    | none => .ok {}

/-- The changes after the last one with a token; all of them where no change has it. -/
def changesAfter (s : System) (token? : Option SyncToken) : List DeltaDraft :=
  match token? with
  | none => s.changes
  | some token =>
    if s.changes.any fun d => d.token = token then
      (s.changes.reverse.takeWhile fun d => d.token ≠ token).reverse
    else s.changes

def latestToken (s : System) : Option SyncToken := s.changes.getLast?.map (·.token)

end System

end Provisioning.Memory
