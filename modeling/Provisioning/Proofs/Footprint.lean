import Mathlib.Data.List.Forall2
import Mathlib.Data.List.Induction
import Provisioning.Proofs.Lookups
import Provisioning.Proofs.Order.Values

/-! What of an object a filter can see: the values under the names that it lists. These are the names of its leaves, in
the spelling and the order in which they first occur. -/

namespace Provisioning

namespace Value

/-- The same value, or numbers with a point that are equal without being the same, as the two zeros are. -/
inductive Same : Value → Value → Prop
  | refl (v : Value) : Same v v
  | floats {x y : Float} (h : (x == y) = true) : Same (float x) (float y)

variable {v w : Value}

theorem Same.string? (h : Same v w) : v.string? = w.string? := by
  cases h <;> rfl

theorem Same.beq (h : Same v w) (u : Value) : (u == v) = (u == w) ∧ (v == u) = (w == u) := by
  cases h with
  | refl => exact ⟨rfl, rfl⟩
  | @floats x y h =>
    cases u with
    | float z =>
      change (z == x) = (z == y) ∧ (x == z) = (y == z)
      constructor
      · rw [Bool.eq_iff_iff, beq_iff, beq_iff, ofFloat?_eq_of_beq h]
      · rw [Bool.eq_iff_iff, beq_iff, beq_iff, ofFloat?_eq_of_beq h]
    | _ => exact ⟨rfl, rfl⟩

theorem Same.compare? (h : Same v w) (u : Value) : v.compare? u = w.compare? u := by
  cases h with
  | refl => rfl
  | floats h =>
    rw [compare?_eq_order? (.inl rfl), compare?_eq_order? (.inl rfl), place?, place?, ofFloat?_eq_of_beq h]

end Value

namespace Attribute

/-- The same values in the same places. An attribute without a list of values is read as one with an empty list. -/
def SameValues (a b : Attribute) : Prop := List.Forall₂ Value.Same a.values b.values

theorem sameValues_of_eq {a b : Attribute} (h : a.values? = b.values?) : a.SameValues b := by
  unfold SameValues values
  rw [h]
  exact List.forall₂_same.2 fun v _ => .refl v

end Attribute

namespace Comparison

variable {vs ws : List Value}

theorem beq_congr (h : List.Forall₂ Value.Same vs ws) (us : List Value) : (us == vs) = (us == ws) := by
  induction h generalizing us with
  | nil => rfl
  | cons hhead _ ih =>
    cases us with
    | nil => rfl
    | cons u rest => rw [List.cons_beq_cons, List.cons_beq_cons, (hhead.beq u).1, ih]

theorem any_beq_congr (h : List.Forall₂ Value.Same vs ws) (u : Value) : vs.any (· == u) = ws.any (· == u) := by
  induction h with
  | nil => rfl
  | cons hhead _ ih => rw [List.any_cons, List.any_cons, (hhead.beq u).2, ih]

theorem strings_congr (h : List.Forall₂ Value.Same vs ws) :
    vs.filterMap Value.string? = ws.filterMap Value.string? := by
  induction h with
  | nil => rfl
  | cons hhead _ ih => rw [List.filterMap_cons, List.filterMap_cons, hhead.string?, ih]

variable {a b : Attribute}

theorem someString_congr (h : a.SameValues b) (wanted : Attribute) : someString wanted a = someString wanted b := by
  funext related
  unfold someString
  rw [strings_congr h]

theorem order?_congr (h : a.SameValues b) (wanted : Attribute) : order? wanted a = order? wanted b := by
  have hsingle (u : Value) : (a.singleValue?.bind fun v => v.compare? u) = b.singleValue?.bind fun v => v.compare? u := by
    unfold Attribute.SameValues at h
    unfold Attribute.singleValue?
    generalize a.values = vs, b.values = ws at h ⊢
    cases h with
    | nil => rfl
    | cons hhead htail =>
      cases htail with
      | nil => exact hhead.compare? u
      | cons => rfl
  exact congrArg wanted.singleValue?.bind (funext hsingle)

theorem holds_congr (c : Comparison) (h : a.SameValues b) (wanted : Attribute) : c.holds wanted a = c.holds wanted b := by
  cases c with
  | equals => exact beq_congr h wanted.values
  | contains | startsWith | endsWith => exact congrFun (someString_congr h wanted) _
  | greaterThan | greaterThanOrEqual | lessThan | lessThanOrEqual =>
    exact congrArg (Option.any _) (order?_congr h wanted)
  | containsAllValues => exact congrArg wanted.values.all (funext (any_beq_congr h))

end Comparison

namespace Filter

theorem acceptsLeaf_congr {o p : ConnectorObject} {a : Attribute}
    (h : Option.Rel Attribute.SameValues (o.get? a.name) (p.get? a.name)) (c : Comparison) :
    acceptsLeaf o c a = acceptsLeaf p c a := by
  unfold acceptsLeaf
  generalize o.get? a.name = oa?, p.get? a.name = pa? at h ⊢
  cases h with
  | none => rfl
  | some h => exact c.holds_congr h a

/-- The names before which no name is the same, case aside. -/
def firstSpellings (names : List String) : List String :=
  (names.zipIdx.filter fun (n, i) => !(names.take i).any (sameName n)).map Prod.fst

theorem firstSpellings_concat (names : List String) (name : String) :
    firstSpellings (names ++ [name]) =
      firstSpellings names ++ if names.any (sameName name) then [] else [name] := by
  have hbefore : (names.zipIdx.filter fun (n, i) => !((names ++ [name]).take i).any (sameName n)) =
      names.zipIdx.filter fun (n, i) => !(names.take i).any (sameName n) := by
    refine List.filter_congr fun (n, i) hmem => ?_
    have hlt : i < names.length := by simpa using (List.mem_zipIdx hmem).2.1
    simp only [List.take_append_of_le_length hlt.le]
  unfold firstSpellings
  rw [List.zipIdx_append, List.filter_append, List.map_append, hbefore]
  congr 1
  by_cases h : names.any (sameName name) = true
  · simp [h]
  · simp [h]

theorem distinctNames_concat (names : List String) (name : String) :
    distinctNames (names ++ [name]) =
      distinctNames names ++ if names.any (sameName name) then [] else [name] := by
  have hany : (distinctNames names).any (sameName name) = names.any (sameName name) :=
    any_addNames [] names name
  rw [distinctNames, List.foldl_append, ← distinctNames, List.foldl_cons, List.foldl_nil, hany]
  split
  · exact (List.append_nil _).symm
  · rfl

theorem distinctNames_eq (names : List String) : distinctNames names = firstSpellings names := by
  induction names using List.reverseRecOn with
  | nil => rfl
  | append_singleton names name ih => rw [distinctNames_concat, firstSpellings_concat, ih]

theorem pairwise_distinctNames (names : List String) :
    (distinctNames names).Pairwise fun m n => sameName m n = false := by
  induction names using List.reverseRecOn with
  | nil => exact .nil
  | append_singleton names name ih =>
    rw [distinctNames_concat]
    by_cases h : names.any (sameName name) = true
    · rwa [if_pos h, List.append_nil]
    · rw [if_neg h, List.pairwise_append]
      refine ⟨ih, List.pairwise_singleton _ _, fun m hm n hn => ?_⟩
      obtain rfl := List.mem_singleton.1 hn
      have hnew : (distinctNames names).any (sameName n) = false := by
        rw [← Bool.not_eq_true]
        exact any_addNames [] names n ▸ h
      rw [sameName_comm, ← Bool.not_eq_true]
      exact List.any_eq_false.1 hnew m hm

theorem exists_attributeName {f : Filter} {a : Attribute} (ha : a ∈ f.leaves) :
    ∃ n ∈ f.attributeNames, sameName a.name n = true := by
  have hany : f.attributeNames.any (sameName a.name) = true := by
    rw [any_attributeNames]
    exact List.any_eq_true.2 ⟨a, ha, sameName_refl a.name⟩
  exact List.any_eq_true.1 hany

/-- A filter lists the names of its leaves, each as it is spelled first, and of an object it sees no more than
what stands under these. -/
theorem reads_only_attributeNames (f : Filter) :
    f.attributeNames = firstSpellings (f.leaves.map Attribute.name) ∧
    (f.attributeNames.Pairwise fun m n => sameName m n = false) ∧
    (∀ a ∈ f.leaves, ∃ n ∈ f.attributeNames, sameName a.name n = true) ∧
    ∀ o p : ConnectorObject,
      (∀ n ∈ f.attributeNames, Option.Rel Attribute.SameValues (o.get? n) (p.get? n)) → f.accepts o = f.accepts p := by
  refine ⟨distinctNames_eq _, pairwise_distinctNames _, fun a => exists_attributeName, fun o p hagree => ?_⟩
  refine accepts_congr_of_leaves fun a ha c => acceptsLeaf_congr ?_ c
  -- the name of the leaf may be spelled otherwise than the listed one, under which the objects agree
  obtain ⟨n, hn, hsame⟩ := exists_attributeName ha
  rw [ConnectorObject.get?, ConnectorObject.get?, AttributeSet.get?_congr hsame, AttributeSet.get?_congr hsame]
  exact hagree n hn

/-- Accounts with one address, whose ages are the two zeros. They have neither their Uid nor a team in common. -/
def teamed : ConnectorObject :=
  ⟨.account, ⟨"u1"⟩, .ofList [.single uidName (.string "u1"), .single "Mail" (.string "ann@x"),
    .single "age" (.float 0), .single "team" (.string "red")]⟩

def teamless : ConnectorObject :=
  ⟨.account, ⟨"u2"⟩, .ofList [.single uidName (.string "u2"), .single "Mail" (.string "ann@x"),
    .single "age" (.float (-0)), .of "team" []]⟩

theorem reads_only_attributeNames_teamless :
    let filter : Filter := .all [.leaf .equals (.single "mail" (.string "ann@x")),
      .not (.leaf .greaterThan (.single "Age" (.float 0))), .any [.leaf .startsWith (.single "MAIL" (.string "ann"))]]
    filter.attributeNames = ["mail", "Age"] ∧
      (∀ n ∈ filter.attributeNames, Option.Rel Attribute.SameValues (teamed.get? n) (teamless.get? n)) ∧
      teamed.get? "age" ≠ teamless.get? "age" ∧ teamed.get? "team" ≠ teamless.get? "team" ∧
      filter.accepts teamed = true ∧ filter.accepts teamless = true := by
  intro filter
  have hnames : filter.attributeNames = ["mail", "Age"] := by decide +kernel
  have hmail : teamed.get? "mail" = teamless.get? "mail" := by decide +kernel
  have hmail' : teamless.get? "mail" = some (.single "Mail" (.string "ann@x")) := by decide +kernel
  have hage : teamed.get? "Age" = some (.single "age" (.float 0)) := by decide +kernel
  have hage' : teamless.get? "Age" = some (.single "age" (.float (-0))) := by decide +kernel
  have hagree : ∀ n ∈ filter.attributeNames, Option.Rel Attribute.SameValues (teamed.get? n) (teamless.get? n) := by
    rw [hnames, List.forall_mem_cons, List.forall_mem_singleton, hmail, hmail', hage, hage']
    exact ⟨.some (Attribute.sameValues_of_eq rfl), .some (.cons (.floats (by decide)) .nil)⟩
  have hteamed : filter.accepts teamed = true := by decide +kernel
  refine ⟨hnames, hagree, by decide +kernel, by decide +kernel, hteamed, ?_⟩
  rw [← (reads_only_attributeNames filter).2.2.2 teamed teamless hagree, hteamed]

end Filter

end Provisioning
