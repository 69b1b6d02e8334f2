import Provisioning.Proofs.Lookups
import Provisioning.Schema

/-! Putting schemas together. However many attributes are given to a class, no two of them have one name, the Uid and the
name are among them, and the one given last is found under a name. Of the restrictions of an operation the last
counts. -/

namespace Provisioning

namespace ObjectClassInfo

def withAttributes (c : ObjectClassInfo) (given : List AttributeInfo) : ObjectClassInfo := given.foldl withAttribute c

def Distinct (c : ObjectClassInfo) : Prop := c.attributes.Pairwise fun a b => sameName a.name b.name = false

theorem distinct_of (typeName : String) : (of typeName).Distinct := by
  have hnames : sameName uidName nameName = false := by decide
  simpa [Distinct, of, AttributeInfo.asReadOnly, AttributeInfo.asRequired] using hnames

theorem Distinct.withAttribute {c : ObjectClassInfo} (h : c.Distinct) (a : AttributeInfo) :
    (c.withAttribute a).Distinct := by
  refine List.pairwise_append.2 ⟨h.filter _, List.pairwise_singleton _ a, ?_⟩
  intro b hb d hd
  obtain ⟨-, hother⟩ := List.mem_filter.1 hb
  rw [List.mem_singleton.1 hd]
  simpa using hother

theorem Distinct.withAttributes {c : ObjectClassInfo} (h : c.Distinct) (given : List AttributeInfo) :
    (c.withAttributes given).Distinct := by
  induction given generalizing c with
  | nil => exact h
  | cons a rest ih => exact ih (h.withAttribute a)

theorem attribute?_withAttribute (c : ObjectClassInfo) (a : AttributeInfo) (name : String) :
    (c.withAttribute a).attribute? name = if sameName a.name name then some a else c.attribute? name := by
  -- an attribute by the name that is looked up gives way just if the new one goes by this name too
  have hkept (b : AttributeInfo) : (!sameName b.name a.name) = true ∧ sameName b.name name = true ↔
      sameName a.name name = false ∧ sameName b.name name = true := by
    refine and_congr_left fun hb => ?_
    rw [sameName_congr hb, sameName_comm name a.name, Bool.not_eq_true']
  unfold attribute? withAttribute
  rw [List.find?_append, List.find?_filter, List.find?_singleton]
  simp only [hkept]
  cases sameName a.name name with
  | true =>
    have hnone : (c.attributes.find? fun _ => false) = none := List.find?_eq_none.2 fun _ _ => Bool.false_ne_true
    simp [hnone]
  | false => simp

/-- Of the attributes given to a class the last of a name is found. -/
theorem attribute?_withAttributes (c : ObjectClassInfo) (given : List AttributeInfo) (name : String) :
    (c.withAttributes given).attribute? name =
      (given.reverse.find? fun a => sameName a.name name).or (c.attribute? name) := by
  induction given generalizing c with
  | nil => rfl
  | cons a rest ih =>
    have hstep : c.withAttributes (a :: rest) = (c.withAttribute a).withAttributes rest := rfl
    rw [hstep, ih, attribute?_withAttribute, List.reverse_cons, List.find?_append, Option.or_assoc,
      List.find?_singleton]
    cases sameName a.name name <;> rfl

theorem attribute?_of (typeName name : String) :
    (of typeName).attribute? name = (of typeName).attributes.reverse.find? fun a => sameName a.name name := by
  -- no name is both the one of the Uid and the one of the name, so that the order does not count
  have hnames (huid : sameName uidName name = true) : sameName nameName name = false := by
    rw [sameName_comm, ← sameName_congr huid]
    decide
  unfold attribute? of
  cases hu : sameName uidName name with
  | true => simp [AttributeInfo.asReadOnly, AttributeInfo.asRequired, hu, hnames hu]
  | false => cases hn : sameName nameName name <;> simp [AttributeInfo.asReadOnly, AttributeInfo.asRequired, hu, hn]

theorem attribute?_built (typeName : String) (given : List AttributeInfo) (name : String) :
    ((of typeName).withAttributes given).attribute? name =
      ((of typeName).attributes ++ given).reverse.find? fun a => sameName a.name name := by
  rw [attribute?_withAttributes, attribute?_of, List.reverse_append, List.find?_append]

theorem isSome_attribute?_built (typeName : String) (given : List AttributeInfo) {a : AttributeInfo}
    (ha : a ∈ (of typeName).attributes) : (((of typeName).withAttributes given).attribute? a.name).isSome := by
  rw [attribute?_built, List.find?_isSome]
  exact ⟨a, List.mem_reverse.2 (List.mem_append_left given ha), sameName_refl a.name⟩

end ObjectClassInfo

theorem Operation.mem_all (o : Operation) : o ∈ all := by cases o <;> decide

theorem Operation.index_inj {o p : Operation} : o.index = p.index ↔ o = p := List.idxOf_inj o.mem_all

/-- What is told of a system when its schema is put together. -/
inductive Provision where
  | objectClass (c : ObjectClassInfo)
  | restriction (o : Operation) (names : List String)

namespace Provision

def objectClass? : Provision → Option ObjectClassInfo
  | objectClass c => some c
  | restriction _ _ => none

def restriction? (o : Operation) : Provision → Option (List String)
  | objectClass _ => none
  | restriction p names => if p = o then some names else none

end Provision

namespace Schema

def add (s : Schema) : Provision → Schema
  | .objectClass c => s.withObjectClass c
  | .restriction o names => s.restrict o names

def ofProvisions (provisions : List Provision) : Schema := provisions.foldl add {}

/-- The restrictions stand in the order of their operations, one for each. -/
def Ordered (restrictions : List (Operation × List String)) : Prop :=
  restrictions.Pairwise fun r q => r.1.index < q.1.index

variable {restrictions : List (Operation × List String)}

theorem mem_insertRestriction {o : Operation} {names : List String} {r : Operation × List String}
    (h : r ∈ insertRestriction o names restrictions) : r = (o, names) ∨ r ∈ restrictions := by
  induction restrictions with
  | nil => simpa [insertRestriction] using h
  | cons q rest ih => grind [insertRestriction]

theorem Ordered.insertRestriction (h : Ordered restrictions) (o : Operation) (names : List String) :
    Ordered (insertRestriction o names restrictions) := by
  induction restrictions with
  | nil => exact List.pairwise_singleton _ _
  | cons q rest ih =>
    obtain ⟨p, ns⟩ := q
    obtain ⟨hp, hrest⟩ := List.pairwise_cons.1 h
    unfold Schema.insertRestriction
    split
    · next hlt =>
      refine List.pairwise_cons.2 ⟨?_, h⟩
      intro r hr
      rcases List.mem_cons.1 hr with rfl | hr
      · exact hlt
      · exact Nat.lt_trans hlt (hp r hr)
    · next hge =>
      split
      · next heq =>
        subst heq
        exact List.pairwise_cons.2 ⟨hp, hrest⟩
      · next hne =>
        refine List.pairwise_cons.2 ⟨?_, ih hrest⟩
        intro r hr
        rcases mem_insertRestriction hr with rfl | hr
        · have := mt Operation.index_inj.1 hne
          simp only
          omega
        · exact hp r hr

theorem find?_insertRestriction (o p : Operation) (names : List String) :
    (insertRestriction o names restrictions).find? (fun r => r.1 = p) =
      if o = p then some (o, names) else restrictions.find? fun r => r.1 = p := by
  induction restrictions with
  | nil => simp [insertRestriction]
  | cons q rest ih =>
    obtain ⟨q, ns⟩ := q
    unfold insertRestriction
    split
    · by_cases hp : o = p <;> simp [List.find?_cons, hp]
    · split
      · next heq =>
        subst heq
        by_cases hp : o = p <;> simp [hp]
      · next hne =>
        rw [List.find?_cons, List.find?_cons, ih]
        by_cases hq : q = p
        · subst hq
          simp [hne]
        · simp [hq]

theorem insertRestriction_of_lt {o : Operation} (names : List String) (h : ∀ r ∈ restrictions, r.1.index < o.index) :
    insertRestriction o names restrictions = restrictions ++ [(o, names)] := by
  induction restrictions with
  | nil => rfl
  | cons q rest ih =>
    obtain ⟨p, ns⟩ := q
    rw [List.forall_mem_cons] at h
    have hge : ¬ o.index < p.index := Nat.not_lt_of_lt h.1
    have hne : o ≠ p := by
      rintro rfl
      exact Nat.lt_irrefl _ h.1
    rw [insertRestriction, if_neg hge, if_neg hne, ih h.2, List.cons_append]

/-- Restrictions that stand in order are the same when they are put one by one. -/
theorem foldl_insertRestriction {before rest : List (Operation × List String)} (h : Ordered (before ++ rest)) :
    rest.foldl (fun rs r => insertRestriction r.1 r.2 rs) before = before ++ rest := by
  induction rest generalizing before with
  | nil => simp
  | cons r rest ih =>
    have hbefore : ∀ q ∈ before, q.1.index < r.1.index := fun q hq =>
      (List.pairwise_append.1 h).2.2 q hq r List.mem_cons_self
    rw [List.foldl_cons, insertRestriction_of_lt r.2 hbefore, ih (by simpa using h)]
    simp

theorem ordered_ofProvisions (provisions : List Provision) : Ordered (ofProvisions provisions).restrictions := by
  refine List.foldlRecOn (motive := fun s : Schema => Ordered s.restrictions) provisions add .nil ?_
  intro s hs p _
  cases p with
  | objectClass c => exact hs
  | restriction o names => exact hs.insertRestriction o names

theorem objectClasses_add (s : Schema) (p : Provision) :
    (s.add p).objectClasses = s.objectClasses ++ p.objectClass?.toList := by
  cases p with
  | objectClass c => rfl
  | restriction o names => exact (List.append_nil _).symm

theorem objectClasses_ofProvisions (provisions : List Provision) :
    (ofProvisions provisions).objectClasses = provisions.filterMap Provision.objectClass? := by
  have run : ∀ (provisions : List Provision) (s : Schema), (provisions.foldl add s).objectClasses =
      s.objectClasses ++ provisions.flatMap fun p => p.objectClass?.toList := by
    intro provisions
    induction provisions with
    | nil => intro s; simp
    | cons p rest ih =>
      intro s
      rw [List.foldl_cons, ih, objectClasses_add, List.flatMap_cons, List.append_assoc]
  rw [List.filterMap_eq_flatMap_toList]
  exact run provisions {}

theorem find?_restrictions_add (s : Schema) (p : Provision) (o : Operation) :
    (s.add p).restrictions.find? (fun r => r.1 = o) =
      ((p.restriction? o).map (o, ·)).or (s.restrictions.find? fun r => r.1 = o) := by
  cases p with
  | objectClass c => rfl
  | restriction p names =>
    rw [add, restrict, find?_insertRestriction, Provision.restriction?]
    by_cases hp : p = o <;> simp [hp]

theorem find?_restrictions_ofProvisions (provisions : List Provision) (o : Operation) :
    (ofProvisions provisions).restrictions.find? (fun r => r.1 = o) =
      (provisions.reverse.findSome? (Provision.restriction? o)).map (o, ·) := by
  have run : ∀ (provisions : List Provision) (s : Schema),
      (provisions.foldl add s).restrictions.find? (fun r => r.1 = o) =
        ((provisions.reverse.findSome? (Provision.restriction? o)).map (o, ·)).or
          (s.restrictions.find? fun r => r.1 = o) := by
    intro provisions
    induction provisions with
    | nil => intro s; rfl
    | cons p rest ih =>
      intro s
      rw [List.foldl_cons, ih, find?_restrictions_add, List.reverse_cons, List.findSome?_append, Option.map_or,
        Option.or_assoc, List.findSome?_singleton]
  exact (run provisions {}).trans Option.or_none

/-- An operation is for what its last restriction lists, or for every class that is found. -/
theorem supports_ofProvisions (provisions : List Provision) (o : Operation) (c : ObjectClass) :
    (ofProvisions provisions).supports o c =
      match provisions.reverse.findSome? (Provision.restriction? o) with
      | some names => names.any c.isNamed
      | none => ((ofProvisions provisions).objectClass? c).isSome := by
  unfold supports
  rw [find?_restrictions_ofProvisions]
  cases provisions.reverse.findSome? (Provision.restriction? o) <;> rfl

/-- The second restriction takes the place of the first, and leaves other operations alone. -/
example :
    let s := ofProvisions [.objectClass (.of "__ACCOUNT__"), .restriction .sync ["__GROUP__"],
      .restriction .sync ["__account__"]]
    s.supports .sync .account ∧ ¬ s.supports .sync .group ∧ s.supports .search .account := by decide

end Schema

end Provisioning
