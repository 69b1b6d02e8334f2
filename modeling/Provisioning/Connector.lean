import Provisioning.Configuration
import Provisioning.Options
import Provisioning.Schema
import Provisioning.Stage

/-! What connectors offer. A connector acts on a world that the library never looks into; each of its
abilities is there or not, depending on the world at that moment. To ask for an ability, for the normalizer or
for the translation of a filter gives an answer; what becomes of a body that breaks down anywhere is a matter of
`Facade.dispatch`, for which it makes no difference what the body is. -/

namespace Provisioning

/-- A call into code of a connector: it changes the world, and ends with a value or breaks down. -/
abbrev Call (World α : Type) := ExceptT Breakdown (StateM World) α

namespace Call

variable {World α : Type}

/-- A call that only fails, or only gives a value. -/
def ofExcept (e : Except Failure α) : Call World α := fun w => (Outcome.ofExcept e, w)

def fail (f : Failure) : Call World α := ofExcept (.error f)

end Call

/-- Asks a system for the objects of a class that a filter may accept. -/
abbrev Searcher (World : Type) :=
  ObjectClass → Option Filter → Options → World → Delivery ConnectorObject (Outcome SearchResult × World)

/-- Changes single values of attributes, as well as whole attributes. -/
structure ValueUpdater (World : Type) where
  replace : ObjectClass → AttributeSet → Options → Call World Uid
  add : ObjectClass → AttributeSet → Options → Call World Uid
  remove : ObjectClass → AttributeSet → Options → Call World Uid

/-- Follows the changes of a system. -/
structure ChangeSource (World : Type) where
  changes : ObjectClass → Option SyncToken → Options → World → Delivery Delta (Outcome Unit × World)
  latestToken : ObjectClass → Call World (Option SyncToken)

/-- A live connector. -/
structure Connector (World : Type) where
  checkAlive : Call World Unit
  /-- Gives up all the connector holds; to be called once. A failure changes nothing for the caller. -/
  dispose : World → Except Failure Unit × World
  normalizer? : World → Option Normalizer
  create? : World → Option (ObjectClass → AttributeSet → Options → Call World Uid)
  delete? : World → Option (ObjectClass → Uid → Options → Call World Unit)
  update? : World → Option (ObjectClass → AttributeSet → Options → Call World Uid)
  updateValues? : World → Option (ValueUpdater World)
  search? : World → Option (Searcher World)
  sync? : World → Option (ChangeSource World)
  authenticate? : World → Option (ObjectClass → String → Secret → Options → Call World Uid)
  resolveUsername? : World → Option (ObjectClass → String → Options → Call World Uid)
  schema? : World → Option (Call World Schema)
  test? : World → Option (Call World Unit)
  scriptOnConnector? : World → Option (Script → Options → Call World Json)
  scriptOnResource? : World → Option (Script → Options → Call World Json)

/-- A connector without any ability. -/
def Connector.bare {World : Type} : Connector World where
  checkAlive := pure ()
  dispose w := (.ok (), w)
  normalizer? _ := none
  create? _ := none
  delete? _ := none
  update? _ := none
  updateValues? _ := none
  search? _ := none
  sync? _ := none
  authenticate? _ := none
  resolveUsername? _ := none
  schema? _ := none
  test? _ := none
  scriptOnConnector? _ := none
  scriptOnResource? _ := none

/-- A connector at work, under the key of its registration. -/
structure Hosted (World : Type) where
  key : ConnectorKey
  connector : Connector World

namespace Hosted

variable {World : Type}

/-- The failure of a request for which the connector lacks the ability. -/
def unsupported (h : Hosted World) (o : Operation) : Failure := .unsupportedOperation o h.key

def normalization (h : Hosted World) (c : ObjectClass) (w : World) : Normalization :=
  ⟨c, h.connector.normalizer? w⟩

/-- An ability of the connector, or the failure that it is missing. -/
def ability {α : Type} (h : Hosted World) (o : Operation) (ability? : World → Option α) : Call World α := do
  match ability? (← get) with
  | some a => return a
  | none => Call.fail (h.unsupported o)

end Hosted

end Provisioning
