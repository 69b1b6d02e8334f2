import Provisioning.Connector
import Provisioning.Filter.QueryLanguage

/-! Searching. A connector that runs native queries is searched query by query; whatever it passes is
normalized, checked against the normalized filter and only then reduced to the attributes asked for. -/

namespace Provisioning

/-- A system that runs native queries. -/
structure QueryRunner (World Query : Type) where
  translator : ObjectClass → Options → World → Option Filter → List Query
  execute : ObjectClass → Option Query → Options → World →
    Delivery ConnectorObject (Outcome SearchResult × World)

namespace QueryRunner

variable {World Query : Type} (runner : QueryRunner World Query)

/-- Runs queries one after the other until one fails or the caller has stopped. An object that several
queries find is passed once; the last result counts. -/
def runEach (c : ObjectClass) (options : Options) :
    List Query → SearchResult → Distinct → World → Delivery ConnectorObject (Outcome SearchResult × World)
  | [], result, _, w => .done (.ok result, w)
  | q :: rest, _, memory, w =>
    ((runner.execute c (some q) options w).distinct memory).andThen fun ((outcome, w), memory) =>
      match outcome with
      | .error e => .done (.error e, w)
      | .ok result =>
        if memory.stillHandling then runEach c options rest result memory w else .done (.ok result, w)

/-- The search that runs the native queries for a filter: without queries the system is asked for all
objects of the class. -/
def searcher : Searcher World := fun c filter? options w =>
  match runner.translator c options w filter? with
  | [] => runner.execute c none options w
  | [q] => runner.execute c (some q) options w
  | queries => runner.runEach c options queries {} {} w

end QueryRunner

/-- The options for the connector: where answers are reduced, the attributes that the filter reads are
asked for as well. -/
def Options.coveringFilter (options : Options) (filter? : Option Filter) : Options :=
  match options.restriction?, filter? with
  | some names, some f =>
    options.withAttributesToGet
      (f.attributeNames.foldl (fun all n => if all.any (sameName n) then all else all ++ [n]) names)
  | _, _ => options

namespace Hosted

variable {World : Type}

/-- What the caller receives of what a connector passes. -/
def refine {ρ : Type} (n : Normalization) (filter? : Option Filter) (options : Options)
    (d : Delivery ConnectorObject ρ) : Delivery ConnectorObject ρ :=
  let d := d.normalized n
  let d := match filter? with
    | some f => d.accepted f
    | none => d
  match options.restriction? with
  | some names => d.reduced names
  | none => d

def search (h : Hosted World) (c : ObjectClass) (filter? : Option Filter) (options : Options) (w : World) :
    Delivery ConnectorObject (Outcome SearchResult × World) :=
  let n := h.normalization c w
  let filter? := filter?.map n.onFilter
  match h.connector.search? w with
  | none => .done (.error (.failed (h.unsupported .search)), w)
  | some searcher => refine n filter? options (searcher c filter? (options.coveringFilter filter?) w)

/-- Keeps the last object and wants no more. -/
def keepLast : Handler ConnectorObject (Option ConnectorObject) := fun o => do
  set (some o)
  return false

/-- The object with a Uid. -/
def get (h : Hosted World) (c : ObjectClass) (uid : Uid) (options : Options) :
    Call World (Option ConnectorObject) := fun w =>
  let ((outcome, w), found?) :=
    ((h.search c (some (.leaf .equals uid.toAttribute)) options w).run keepLast).run none
  (outcome.map fun _ => found?, w)

end Hosted

end Provisioning
