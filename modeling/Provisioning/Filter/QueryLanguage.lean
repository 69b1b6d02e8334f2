import Provisioning.Filter

/-! Native queries for filters. A query language expresses what it can; what it cannot is left out, so
that the queries together may find more than the filter accepts, never less. No query at all means no
constraint. -/

namespace Provisioning

/-- What a system can be asked: comparisons in plain or negated form, and joins of two queries. -/
structure QueryLanguage (Query : Type) where
  leaf? : Comparison → Attribute → (negated : Bool) → Option Query
  and? : Query → Query → Option Query
  or? : Query → Query → Option Query

namespace QueryLanguage

variable {Query : Type} (language : QueryLanguage Query)

/-- Both lists of queries at once: every pair joined, or its left query alone where the language cannot
join the pair. A list without queries does not constrain. -/
def conjoin (found part : List Query) : List Query :=
  if part.isEmpty then found
  else if found.isEmpty then part
  else found.flatMap fun l => part.map fun r => (language.and? l r).getD l

/-- Either list of queries: a single pair joined if the language can, else all of them one by one. -/
def disjoin (found part : List Query) : List Query :=
  match found, part with
  | [l], [r] => ((language.or? l r).map ([·])).getD [l, r]
  | _, _ => found ++ part

/-- The queries for all of the parts. -/
def conjunction (parts : List (List Query)) : List Query := parts.foldl language.conjoin []

/-- The queries for any of the parts; one part without constraint leaves the whole without. -/
def disjunction (parts : List (List Query)) : List Query :=
  if parts.any List.isEmpty then []
  else
    match parts with
    | [] => []
    | first :: rest => rest.foldl language.disjoin first

mutual
/-- The queries for a filter or, where `negated`, for its negation: a negation swaps all and any on its
way to the leaves. -/
def queries (negated : Bool) : Filter → List Query
  | .leaf c a => (language.leaf? c a negated).toList
  | .not f => queries (!negated) f
  | .all parts =>
    if negated then language.disjunction (queriesOfEach negated parts)
    else language.conjunction (queriesOfEach negated parts)
  | .any parts =>
    if negated then language.conjunction (queriesOfEach negated parts)
    else language.disjunction (queriesOfEach negated parts)

def queriesOfEach (negated : Bool) : List Filter → List (List Query)
  | [] => []
  | f :: rest => queries negated f :: queriesOfEach negated rest
end

theorem queriesOfEach_eq (negated : Bool) (parts : List Filter) :
    language.queriesOfEach negated parts = parts.map (language.queries negated) := by
  induction parts with
  | nil => rfl
  | cons f rest ih => simp [queriesOfEach, ih]

/-- The queries that find what a filter accepts; without a filter there is no constraint. -/
def translate (filter? : Option Filter) : List Query :=
  match filter? with
  | none => []
  | some f => language.queries false f

end QueryLanguage

end Provisioning
