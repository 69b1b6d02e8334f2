import Provisioning.Object

/-! What may accompany a request, and what a search reports at its end. -/

namespace Provisioning

/-- A field to sort by. -/
structure SortKey where
  field : String
  ascending : Bool := true
deriving DecidableEq, Inhabited

/-- What may accompany a request. -/
structure Options where
  attributesToGet? : Option (List String) := none
  pageSize? : Option UInt32 := none
  pageCookie? : Option String := none
  pageOffset? : Option UInt32 := none
  sortKeys : List SortKey := []
  runAsUser? : Option String := none
  runWithPassword? : Option Secret := none
deriving DecidableEq, Inhabited

namespace Options

def withAttributesToGet (o : Options) (names : List String) : Options :=
  { o with attributesToGet? := some names }

def withoutAttributesToGet (o : Options) : Options := { o with attributesToGet? := none }

def withRunAs (o : Options) (user : String) (password : Secret) : Options :=
  { o with runAsUser? := some user, runWithPassword? := some password }

/-- The attributes that answers are reduced to; an empty list asks for no reduction. -/
def restriction? (o : Options) : Option (List String) :=
  o.attributesToGet?.filter fun names => !names.isEmpty

def isRestricted (o : Options) : Bool := o.restriction?.isSome

end Options

/-- What a search reports at its end: where to go on, and how much is left, −1 where that is unknown. -/
structure SearchResult where
  cookie? : Option String := none
  remaining : Int64 := -1
deriving DecidableEq, Inhabited

end Provisioning
