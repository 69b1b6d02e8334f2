import Provisioning.Delta
import Provisioning.Filter

/-! Normalization: a connector may bring every attribute into the form its system uses. Applied to a
set, an object, a filter, a Uid or a delta it changes each attribute on its own. -/

namespace Provisioning

/-- Brings an attribute of an object of some class into its normal form. -/
abbrev Normalizer := ObjectClass → Attribute → Attribute

/-- The normalizer of a connector, if it has one, for one object class. -/
structure Normalization where
  objectClass : ObjectClass
  normalizer? : Option Normalizer

namespace Normalization

def onAttribute (n : Normalization) (a : Attribute) : Attribute :=
  match n.normalizer? with
  | none => a
  | some f => f n.objectClass a

def onSet (n : Normalization) (s : AttributeSet) : AttributeSet :=
  match n.normalizer? with
  | none => s
  | some f => s.map (f n.objectClass)

def onObject (n : Normalization) (o : ConnectorObject) : ConnectorObject :=
  match n.normalizer? with
  | none => o
  | some f => o.mapAttributes (f n.objectClass)

def onFilter (n : Normalization) (f : Filter) : Filter :=
  match n.normalizer? with
  | none => f
  | some g => f.mapLeaves (g n.objectClass)

/-- A Uid is normalized as the attribute that holds it, and stays if that no longer holds one. -/
def onUid (n : Normalization) (uid : Uid) : Uid :=
  match n.normalizer? with
  | none => uid
  | some f => (f n.objectClass uid.toAttribute).uid?.getD uid

def onDelta (n : Normalization) (d : Delta) : Delta :=
  match n.normalizer? with
  | none => d
  | some _ => d.map n.onUid n.onObject

end Normalization

end Provisioning
