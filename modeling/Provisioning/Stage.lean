import Provisioning.Delivery
import Provisioning.Normalizer

/-! The stages that objects and deltas pass on their way from a connector to the caller: they are
normalized, checked against the filter, reduced to what was asked for, and freed of repetitions. -/

namespace Provisioning

/-- What the stage that drops repetitions remembers: the Uids that have come by, and the last answer
it was given. -/
structure Distinct where
  seen : List Uid := []
  stillHandling : Bool := true

namespace Delivery

variable {ρ : Type}

/-- Passes an object on only if none with its Uid came before; the source is told to go on after one
that came before. -/
def distinct (memory : Distinct) : Delivery ConnectorObject ρ → Delivery ConnectorObject (ρ × Distinct)
  | done r => done (r, memory)
  | pass o next =>
    if o.uid ∈ memory.seen then distinct memory (next true)
    else pass o fun go => distinct ⟨o.uid :: memory.seen, go⟩ (next go)

def normalized (n : Normalization) (d : Delivery ConnectorObject ρ) : Delivery ConnectorObject ρ :=
  d.mapItems n.onObject

def accepted (f : Filter) (d : Delivery ConnectorObject ρ) : Delivery ConnectorObject ρ :=
  d.filterItems fun o => f.accepts o

def reduced (names : List String) (d : Delivery ConnectorObject ρ) : Delivery ConnectorObject ρ :=
  d.mapItems fun o => o.retain names

def deltasNormalized (n : Normalization) (d : Delivery Delta ρ) : Delivery Delta ρ := d.mapItems n.onDelta

def deltasReduced (names : List String) (d : Delivery Delta ρ) : Delivery Delta ρ :=
  d.mapItems fun delta => delta.map id fun o => o.retain names

end Delivery

end Provisioning
