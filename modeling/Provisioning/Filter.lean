import Provisioning.Filter.Comparison

/-! Filters on objects: comparisons with wanted attributes joined by all, any and not. `accepts_all`
and `accepts_any` read acceptance off the parts; `induct` is induction over filters. -/

namespace Provisioning

inductive Filter where
  | leaf (comparison : Comparison) (wanted : Attribute)
  | all (parts : List Filter)
  | any (parts : List Filter)
  | not (part : Filter)
deriving Inhabited

namespace Filter

/-- What holds of every leaf, of every join whose parts it holds of, and of the negation of what it
holds of, holds of every filter. -/
theorem induct {motive : Filter → Prop}
    (leaf : ∀ c a, motive (leaf c a))
    (all : ∀ parts, (∀ f ∈ parts, motive f) → motive (all parts))
    (any : ∀ parts, (∀ f ∈ parts, motive f) → motive (any parts))
    (not : ∀ f, motive f → motive (not f)) (f : Filter) : motive f :=
  Filter.rec (motive_1 := motive) (motive_2 := fun parts => ∀ f ∈ parts, motive f)
    leaf all any not (by simp)
    (fun _ _ h t => List.forall_mem_cons.2 ⟨h, t⟩) f

/-- A comparison with the attribute that the object has under the wanted name; an object without one
is not accepted. -/
def acceptsLeaf (o : ConnectorObject) (c : Comparison) (wanted : Attribute) : Bool :=
  (o.get? wanted.name).any (c.holds wanted)

mutual
/-- Whether an object is one that the filter asks for. -/
def accepts (o : ConnectorObject) : Filter → Bool
  | leaf c wanted => acceptsLeaf o c wanted
  | all parts => acceptsEach o parts
  | any parts => acceptsSome o parts
  | not f => !accepts o f

def acceptsEach (o : ConnectorObject) : List Filter → Bool
  | [] => true
  | f :: rest => accepts o f && acceptsEach o rest

def acceptsSome (o : ConnectorObject) : List Filter → Bool
  | [] => false
  | f :: rest => accepts o f || acceptsSome o rest
end

theorem acceptsEach_eq (o : ConnectorObject) (parts : List Filter) :
    acceptsEach o parts = parts.all (accepts o) := by
  induction parts with
  | nil => rfl
  | cons f rest ih => simp [acceptsEach, ih]

theorem acceptsSome_eq (o : ConnectorObject) (parts : List Filter) :
    acceptsSome o parts = parts.any (accepts o) := by
  induction parts with
  | nil => rfl
  | cons f rest ih => simp [acceptsSome, ih]

@[simp] theorem accepts_leaf (o : ConnectorObject) (c : Comparison) (a : Attribute) :
    accepts o (leaf c a) = acceptsLeaf o c a := rfl

@[simp] theorem accepts_all (o : ConnectorObject) (parts : List Filter) :
    accepts o (all parts) = parts.all (accepts o) := acceptsEach_eq o parts

@[simp] theorem accepts_any (o : ConnectorObject) (parts : List Filter) :
    accepts o (any parts) = parts.any (accepts o) := acceptsSome_eq o parts

@[simp] theorem accepts_not (o : ConnectorObject) (f : Filter) :
    accepts o (not f) = !accepts o f := rfl

mutual
/-- Filters agree when they have one shape and their wanted attributes agree. -/
def agrees : Filter → Filter → Bool
  | leaf c a, leaf d b => decide (c = d) && a == b
  | all fs, all gs => agreesEach fs gs
  | any fs, any gs => agreesEach fs gs
  | not f, not g => agrees f g
  | _, _ => false

def agreesEach : List Filter → List Filter → Bool
  | [], [] => true
  | f :: fs, g :: gs => agrees f g && agreesEach fs gs
  | _, _ => false
end

instance : BEq Filter := ⟨agrees⟩

/-- The wanted attribute of a leaf. -/
def wanted? : Filter → Option Attribute
  | leaf _ a => some a
  | _ => none

mutual
/-- The wanted attributes of all leaves, from left to right. -/
def leaves : Filter → List Attribute
  | leaf _ a => [a]
  | all parts => leavesOfEach parts
  | any parts => leavesOfEach parts
  | not f => leaves f

def leavesOfEach : List Filter → List Attribute
  | [] => []
  | f :: rest => leaves f ++ leavesOfEach rest
end

/-- Names without those that repeat an earlier one, case aside. -/
def distinctNames (names : List String) : List String :=
  names.foldl (fun kept n => if kept.any (sameName n) then kept else kept ++ [n]) []

/-- The attributes that the filter reads, each once, spelled as where it first occurs. -/
def attributeNames (f : Filter) : List String := distinctNames (f.leaves.map Attribute.name)

mutual
/-- Changes the wanted attribute of every leaf. -/
def mapLeaves (g : Attribute → Attribute) : Filter → Filter
  | leaf c a => leaf c (g a)
  | all parts => all (mapLeavesOfEach g parts)
  | any parts => any (mapLeavesOfEach g parts)
  | not f => not (mapLeaves g f)

def mapLeavesOfEach (g : Attribute → Attribute) : List Filter → List Filter
  | [] => []
  | f :: rest => mapLeaves g f :: mapLeavesOfEach g rest
end

/-- Both filters; a conjunction takes the other in as its last part. -/
def andWith (f g : Filter) : Filter :=
  match f with
  | all parts => all (parts ++ [g])
  | f => all [f, g]

/-- Either filter; a disjunction takes the other in as its last part. -/
def orWith (f g : Filter) : Filter :=
  match f with
  | any parts => any (parts ++ [g])
  | f => any [f, g]

end Filter

end Provisioning
