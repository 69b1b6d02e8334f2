import Provisioning.Filter
import Provisioning.Wire.Attribute

/-! JSON forms of filters: the kind under `op` beside the parts, or an array of the kind and the parts.
Inside another filter the kind may also be given by its number. -/

namespace Provisioning.Filter

open Json

/-- What the member `op` tells. -/
inductive Kind where
  | leaf (comparison : Comparison)
  | all
  | any
  | not

def Kind.list : List Kind := Comparison.all.map .leaf ++ [.all, .any, .not]

def Kind.text : Kind → String
  | leaf c => c.text
  | all => "and"
  | any => "or"
  | not => "not"

def Kind.ofText? (s : String) : Option Kind := Kind.list.find? fun k => k.text = s

/-- The kind of a filter by name, or by number where it is nested. -/
def Kind.ofJson? (nested : Bool) : Decoder Kind
  | .string s => Kind.ofText? s
  | .integer n => if nested && n ≥ 0 then Kind.list[n.toNat]? else none
  | _ => none

mutual
def toJson : Filter → Json
  | leaf c a => .object [("op", .string c.text), ("attribute", a.toJson)]
  | all parts => .object [("op", .string "and"), ("filters", .array (toJsonEach parts))]
  | any parts => .object [("op", .string "or"), ("filters", .array (toJsonEach parts))]
  | not f => .object [("op", .string "not"), ("filter", toJson f)]

def toJsonEach : List Filter → List Json
  | [] => []
  | f :: rest => toJson f :: toJsonEach rest
end

/-- The kind of a filter and what else is written of it. -/
def kindAndRest? (nested : Bool) : Json → Option (Kind × Json)
  | .object ms =>
    match ms.filter fun m => m.1 = "op" with
    | [(_, j)] => (Kind.ofJson? nested j).map (·, .object (ms.filter fun m => m.1 ≠ "op"))
    | _ => none
  | .array (j :: rest) => (Kind.ofJson? nested j).map (·, .array rest)
  | _ => none

/-- Reads a filter nested at most `fuel` levels deep. -/
def ofJsonWithin? (nested : Bool) : Nat → Decoder Filter
  | 0, _ => none
  | fuel + 1, j => do
    let (kind, rest) ← kindAndRest? nested j
    match kind with
    | .leaf c => ((Fields.pure (leaf c)).and (.required "attribute" Attribute.ofJson?)).decode rest
    | .all => ((Fields.pure all).and (.required "filters" (.list (ofJsonWithin? true fuel)))).decode rest
    | .any => ((Fields.pure any).and (.required "filters" (.list (ofJsonWithin? true fuel)))).decode rest
    | .not => ((Fields.pure not).and (.required "filter" (ofJsonWithin? true fuel))).decode rest

/-- Reads a filter all of whose text can be used; a filter is never nested more deeply than its text. -/
def ofJson? : Decoder Filter := fun j => if j.isReadable then ofJsonWithin? false j.depth j else none

instance : Coded Filter := ⟨toJson, ofJson?⟩

end Provisioning.Filter
