/-! Things kept under names, in the order in which the names came. `lookup_put` and `lookup_without`
describe them by what is found under a name. -/

namespace Provisioning

abbrev Named (α : Type) := List (String × α)

namespace Named

variable {α : Type}

/-- Puts a thing under a name, in the place of an earlier one. -/
def put (name : String) (a : α) : Named α → Named α
  | [] => [(name, a)]
  | e :: rest => if e.1 = name then (name, a) :: rest else e :: put name a rest

def without (name : String) (l : Named α) : Named α := l.filter fun e => e.1 ≠ name

theorem lookup_put (name other : String) (a : α) (l : Named α) :
    (put name a l).lookup other = if other = name then some a else l.lookup other := by
  induction l with
  | nil => simp only [put, List.lookup_cons, List.lookup_nil]; grind
  | cons e rest ih =>
    obtain ⟨key, b⟩ := e
    unfold put
    split <;> simp only [List.lookup_cons, ih] <;> grind

theorem lookup_without (name other : String) (l : Named α) :
    (without name l).lookup other = if other = name then none else l.lookup other := by
  induction l with
  | nil => simp [without]
  | cons e rest ih =>
    obtain ⟨key, b⟩ := e
    simp only [without, List.filter_cons] at ih ⊢
    split <;> simp only [List.lookup_cons] <;> grind

end Named

end Provisioning
