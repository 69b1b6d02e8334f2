import Provisioning.Search

/-! What callers and connectors ask for, read off the attributes to get as the caller gave them and off the
normalizer that the connector has at the moment. The results about requests say in these terms what becomes of
objects, attributes and Uids. -/

namespace Provisioning

/-- An object as the options ask for it; if they name no attributes it is wanted whole. -/
def Options.reduce (options : Options) (o : ConnectorObject) : ConnectorObject :=
  match options.attributesToGet?.getD [] with
  | [] => o
  | name :: names => o.retain (name :: names)

namespace Options

theorem reduce_eq (options : Options) (o : ConnectorObject) :
    options.reduce o = (options.restriction?.map o.retain).getD o := by
  obtain ⟨names?⟩ := options
  match names? with
  | none => rfl
  | some [] => rfl
  | some (name :: names) => rfl

theorem reduce_of_restricted {options : Options} {names : List String} (h : options.restriction? = some names)
    (o : ConnectorObject) : options.reduce o = o.retain names := by
  rw [reduce_eq, h]
  rfl

theorem reduce_of_unrestricted {options : Options} (h : options.restriction? = none) (o : ConnectorObject) :
    options.reduce o = o := by
  rw [reduce_eq, h]
  rfl

theorem uid_reduce (options : Options) (o : ConnectorObject) : (options.reduce o).uid = o.uid := by
  unfold reduce
  split <;> rfl

end Options

namespace Hosted

variable {World : Type} (h : Hosted World) (c : ObjectClass) (w : World)

def normalAttribute (a : Attribute) : Attribute :=
  match h.connector.normalizer? w with
  | none => a
  | some normal => normal c a

def normalSet (s : AttributeSet) : AttributeSet :=
  match h.connector.normalizer? w with
  | none => s
  | some normal => s.map (normal c)

/-- The Uid is that of the normal attributes, or the one the object had if they hold none. -/
def normalObject (o : ConnectorObject) : ConnectorObject :=
  match h.connector.normalizer? w with
  | none => o
  | some normal =>
    { o with uid := (o.attributes.map (normal c)).uid?.getD o.uid, attributes := o.attributes.map (normal c) }

/-- The Uid of the normal form of its attribute, or the Uid itself if that form holds none. -/
def normalUid (uid : Uid) : Uid :=
  match h.connector.normalizer? w with
  | none => uid
  | some normal => (normal c uid.toAttribute).uid?.getD uid

def normalFilter (f : Filter) : Filter :=
  match h.connector.normalizer? w with
  | none => f
  | some normal => f.mapLeaves (normal c)

theorem onAttribute_normalization : (h.normalization c w).onAttribute = h.normalAttribute c w := rfl

theorem onSet_normalization : (h.normalization c w).onSet = h.normalSet c w := rfl

theorem onObject_normalization : (h.normalization c w).onObject = h.normalObject c w := rfl

theorem onUid_normalization : (h.normalization c w).onUid = h.normalUid c w := rfl

theorem onFilter_normalization : (h.normalization c w).onFilter = h.normalFilter c w := rfl

end Hosted

end Provisioning
