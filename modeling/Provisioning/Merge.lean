import Provisioning.Object

/-! Merging a requested change with the attributes an object has now, for connectors that can only
replace whole attributes. -/

namespace Provisioning

/-- What a requested attribute becomes, given the values the object has under its name. -/
def UpdateKind.apply (kind : UpdateKind) (requested : Attribute) (current? : Option Attribute) :
    Option Attribute :=
  match kind with
  | .add => some (.of requested.name ((current?.map Attribute.values).getD [] ++ requested.values))
  | .delete => current?.map fun current =>
      .of requested.name (current.values.filter fun v => !requested.values.any (· == v))
  | .replace => some requested

/-- The attributes to write back: every requested attribute applied to the current one, every current
attribute that is not mentioned, and the requested Uid. -/
def merge (kind : UpdateKind) (requested current : AttributeSet) : AttributeSet :=
  let changed := (requested.entries.filter fun a => !a.isUid).filterMap fun a =>
    kind.apply a (current.get? a.name)
  let kept := current.entries.filter fun a => !a.isUid && !requested.contains a.name
  (changed ++ kept ++ (requested.get? uidName).toList).foldl AttributeSet.insert .empty

end Provisioning
