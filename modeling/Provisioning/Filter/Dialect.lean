import Provisioning.Filter.QueryLanguage

/-! Query languages that are fragments of filters: a dialect says which comparisons a system takes, in
plain or negated form, and which joins. Its queries are filters, so what a query finds is known. -/

namespace Provisioning

/-- Which pairs of queries a system takes as one query for either of them. -/
inductive AnyJoin where
  | never
  /-- Comparisons in plain form only. -/
  | comparisons
  | always
deriving DecidableEq, Inhabited

/-- What a system takes; unless told otherwise, plain comparisons that an index answers, and joins of
queries that must all hold. -/
structure Dialect where
  plain : List Comparison := [.equals, .startsWith]
  negated : List Comparison := []
  joinsAll : Bool := true
  joinsAny : AnyJoin := .never
deriving DecidableEq, Inhabited

def Filter.isComparison : Filter → Bool
  | leaf _ _ => true
  | _ => false

def AnyJoin.takes (j : AnyJoin) (l r : Filter) : Bool :=
  match j with
  | never => false
  | comparisons => l.isComparison && r.isComparison
  | always => true

namespace Dialect

/-- The dialect of a system that takes no queries. -/
def silent : Dialect := { plain := [], joinsAll := false }

def leaf? (d : Dialect) (c : Comparison) (wanted : Attribute) (negated : Bool) : Option Filter :=
  if negated then if c ∈ d.negated then some (.not (.leaf c wanted)) else none
  else if c ∈ d.plain then some (.leaf c wanted) else none

def language (d : Dialect) : QueryLanguage Filter where
  leaf? := d.leaf?
  and? l r := if d.joinsAll then some (.all [l, r]) else none
  or? l r := if d.joinsAny.takes l r then some (.any [l, r]) else none

end Dialect

end Provisioning
