/-! Deliveries: a source passes items one by one, learns after each whether to go on, and ends with a
result. What a source does after it was told to stop is up to the source. A handler consumes a
delivery; between the two, items can be changed or left out. -/

namespace Provisioning

inductive Delivery (α ρ : Type) where
  | done (result : ρ)
  | pass (item : α) (next : Bool → Delivery α ρ)

/-- Takes items one by one and answers whether it wants more; its state holds what it keeps of them. -/
abbrev Handler (α σ : Type) := α → StateM σ Bool

/-- Keeps every item; whether it wants more depends on all it has. -/
def Handler.keep {α : Type} (wantsMore : List α → Bool) : Handler α (List α) := fun a kept =>
  (wantsMore (kept ++ [a]), kept ++ [a])

/-- Keeps items up to a number of them, or all where there is no such number. -/
def Handler.upTo {α : Type} (limit? : Option Nat) : Handler α (List α) :=
  .keep fun kept => limit?.all fun limit => kept.length < limit

namespace Delivery

variable {α β ρ τ σ : Type}

/-- Goes on with another delivery once the result is known. -/
def andThen : Delivery α ρ → (ρ → Delivery α τ) → Delivery α τ
  | done r, k => k r
  | pass a next, k => pass a fun go => andThen (next go) k

def mapResult (f : ρ → τ) : Delivery α ρ → Delivery α τ
  | done r => done (f r)
  | pass a next => pass a fun go => mapResult f (next go)

def mapItems (f : α → β) : Delivery α ρ → Delivery β ρ
  | done r => done r
  | pass a next => pass (f a) fun go => mapItems f (next go)

/-- Leaves out items; the source is told to go on after one that was left out. -/
def filterItems (p : α → Bool) : Delivery α ρ → Delivery α ρ
  | done r => done r
  | pass a next => if p a then pass a fun go => filterItems p (next go) else filterItems p (next true)

/-- Hands every item to a handler. -/
def run (handler : Handler α σ) : Delivery α ρ → StateM σ ρ
  | done r => pure r
  | pass a next => do
    let go ← handler a
    run handler (next go)

/-- Passes all of a list whatever the answers are, and ends with the answers. -/
def ofList : List α → Delivery α (List Bool)
  | [] => done []
  | a :: rest => pass a fun go => mapResult (go :: ·) (ofList rest)

/-- Passes a list up to the first item after which it is told to stop. -/
def untilStopped (result : ρ) : List α → Delivery α ρ
  | [] => done result
  | a :: rest => pass a fun go => if go then untilStopped result rest else done result

/-- Passes all of a list and ignores the answers. -/
def regardless (result : ρ) : List α → Delivery α ρ
  | [] => done result
  | a :: rest => pass a fun _ => regardless result rest

end Delivery

end Provisioning
