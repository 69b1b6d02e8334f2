import Mathlib.Algebra.BigOperators.Group.List.Basic
import Mathlib.Algebra.GroupWithZero.Nat
import Provisioning.Proofs.Exactness

/-! How many queries there are for a filter. A language that joins any two queries by or asks for every filter at once.
One that joins none, but expresses every comparison, asks once for each way in which the filter can be met: with its
negations moved to the comparisons, a choice adds up the ways of its parts and a conjunction multiplies them,
`length_translate`. Whether a language expresses conjunctions does not matter, since a pair that it cannot join goes on
as its left query. -/

namespace Provisioning

namespace Filter

mutual
/-- The filter or, where `negated`, its negation, with every negation moved to a comparison. -/
def pushed (negated : Bool) : Filter → Filter
  | leaf c a => if negated then not (leaf c a) else leaf c a
  | all parts => if negated then any (pushedEach negated parts) else all (pushedEach negated parts)
  | any parts => if negated then all (pushedEach negated parts) else any (pushedEach negated parts)
  | not f => pushed (!negated) f

def pushedEach (negated : Bool) : List Filter → List Filter
  | [] => []
  | f :: rest => pushed negated f :: pushedEach negated rest
end

mutual
/-- In how many ways a filter can be met whose negations stand at comparisons. -/
def ways : Filter → Nat
  | leaf _ _ => 1
  | not _ => 1
  | all parts => productOfWays parts
  | any parts => sumOfWays parts

def productOfWays : List Filter → Nat
  | [] => 1
  | f :: rest => ways f * productOfWays rest

def sumOfWays : List Filter → Nat
  | [] => 0
  | f :: rest => ways f + sumOfWays rest
end

theorem pushedEach_eq (negated : Bool) (parts : List Filter) : pushedEach negated parts = parts.map (pushed negated) := by
  induction parts with
  | nil => rfl
  | cons f rest ih => simp [pushedEach, ih]

theorem productOfWays_eq (parts : List Filter) : productOfWays parts = (parts.map ways).prod := by
  induction parts with
  | nil => rfl
  | cons f rest ih => simp [productOfWays, ih]

theorem sumOfWays_eq (parts : List Filter) : sumOfWays parts = (parts.map ways).sum := by
  induction parts with
  | nil => rfl
  | cons f rest ih => simp [sumOfWays, ih]

theorem accepts_pushed (f : Filter) (negated : Bool) (o : ConnectorObject) :
    (f.pushed negated).accepts o = (f.accepts o != negated) := by
  have answers (negated : Bool) {parts : List Filter}
      (ih : ∀ f ∈ parts, ∀ negated, (f.pushed negated).accepts o = (f.accepts o != negated)) :
      (pushedEach negated parts).map (accepts o) = parts.map fun f => f.accepts o != negated := by
    rw [pushedEach_eq, List.map_map]
    exact List.map_congr_left fun f hf => ih f hf negated
  induction f using Filter.induct generalizing negated with
  | leaf c a => cases negated <;> simp [pushed]
  | not f ih =>
    rw [pushed, ih, accepts_not]
    cases f.accepts o <;> cases negated <;> rfl
  | all parts ih =>
    cases negated with
    | true => simpa [pushed, List.not_all_eq_any_not] using congrArg (List.any · id) (answers true ih)
    | false => simpa [pushed] using congrArg (List.all · id) (answers false ih)
  | any parts ih =>
    cases negated with
    | true => simpa [pushed, List.not_any_eq_all_not] using congrArg (List.all · id) (answers true ih)
    | false => simpa [pushed] using congrArg (List.any · id) (answers false ih)

/-- What is left of the negations stands at comparisons. -/
theorem eq_leaf_of_occurs_pushed {f part : Filter} {negated odd : Bool}
    (h : (Filter.not part).Occurs odd (f.pushed negated)) : ∃ c a, part = .leaf c a := by
  induction f using Filter.induct generalizing negated odd with
  | leaf c a =>
    cases negated with
    | true =>
      simp [pushed] at h
      exact ⟨c, a, h.2⟩
    | false => simp [pushed] at h
  | not f ih => exact ih h
  | all parts ih =>
    have hpart : ∃ f ∈ parts, (Filter.not part).Occurs odd (f.pushed negated) := by
      cases negated <;> simpa [pushed, pushedEach_eq] using h
    obtain ⟨f, hf, hpart⟩ := hpart
    exact ih f hf hpart
  | any parts ih =>
    have hpart : ∃ f ∈ parts, (Filter.not part).Occurs odd (f.pushed negated) := by
      cases negated <;> simpa [pushed, pushedEach_eq] using h
    obtain ⟨f, hf, hpart⟩ := hpart
    exact ih f hf hpart

theorem ways_pushed_all (negated : Bool) (parts : List Filter) :
    ((all parts).pushed negated).ways =
      if negated then (parts.map fun f => (f.pushed negated).ways).sum
      else (parts.map fun f => (f.pushed negated).ways).prod := by
  cases negated with
  | true => simp [pushed, ways, sumOfWays_eq, pushedEach_eq, Function.comp_def]
  | false => simp [pushed, ways, productOfWays_eq, pushedEach_eq, Function.comp_def]

theorem ways_pushed_any (negated : Bool) (parts : List Filter) :
    ((any parts).pushed negated).ways =
      if negated then (parts.map fun f => (f.pushed negated).ways).prod
      else (parts.map fun f => (f.pushed negated).ways).sum := by
  cases negated with
  | true => simp [pushed, ways, productOfWays_eq, pushedEach_eq, Function.comp_def]
  | false => simp [pushed, ways, sumOfWays_eq, pushedEach_eq, Function.comp_def]

theorem ways_pushed_pos {f : Filter} (hf : ∀ negated, f.OffersChoices negated) (negated : Bool) :
    0 < (f.pushed negated).ways := by
  have sum_pos {parts : List Filter} {w : Filter → Nat} (hne : parts ≠ []) (h : ∀ f ∈ parts, 0 < w f) :
      0 < (parts.map w).sum := by
    obtain ⟨f, hm⟩ := List.exists_mem_of_ne_nil parts hne
    exact List.sum_pos_iff_exists_pos_nat.2 ⟨w f, List.mem_map_of_mem hm, h f hm⟩
  have prod_pos {parts : List Filter} {w : Filter → Nat} (h : ∀ f ∈ parts, 0 < w f) : 0 < (parts.map w).prod :=
    List.prod_pos_iff_forall_pos_nat.2 (List.forall_mem_map.2 h)
  induction f using Filter.induct generalizing negated with
  | leaf c a => cases negated <;> simp [pushed, ways]
  | not f ih => exact ih (fun n => Bool.not_not n ▸ (hf (!n)).part_of_not) (!negated)
  | all parts ih =>
    have hparts : ∀ f ∈ parts, 0 < (f.pushed negated).ways := fun f hm =>
      ih f hm (fun n => (hf n).part_of_all hm) negated
    rw [ways_pushed_all]
    split
    · exact sum_pos (hf true).ne_nil_of_all hparts
    · exact prod_pos hparts
  | any parts ih =>
    have hparts : ∀ f ∈ parts, 0 < (f.pushed negated).ways := fun f hm =>
      ih f hm (fun n => (hf n).part_of_any hm) negated
    rw [ways_pushed_any]
    split
    · exact prod_pos hparts
    · exact sum_pos (hf false).ne_nil_of_any hparts

end Filter

namespace QueryLanguage

variable {Query : Type} {language : QueryLanguage Query} {found part : List Query} {parts : List (List Query)}

theorem length_conjoin (hfound : found ≠ []) (hpart : part ≠ []) :
    (language.conjoin found part).length = found.length * part.length := by
  have hproduct : language.conjoin found part = found.flatMap fun l => part.map fun r => (language.and? l r).getD l := by
    simp [conjoin, hfound, hpart]
  simp [hproduct, List.length_flatMap]

/-! One query at most. -/

theorem length_conjoin_le_one (hfound : found.length ≤ 1) (hpart : part.length ≤ 1) :
    (language.conjoin found part).length ≤ 1 := by
  by_cases hf : found = []
  · cases part <;> simp_all [conjoin]
  · by_cases hp : part = []
    · simp [conjoin, hp, hfound]
    · rw [length_conjoin hf hp]
      exact Nat.mul_le_mul hfound hpart

theorem length_conjunction_le_one (h : ∀ part ∈ parts, part.length ≤ 1) : (language.conjunction parts).length ≤ 1 := by
  unfold conjunction
  refine List.foldlRecOn (motive := fun found : List Query => found.length ≤ 1) parts _ (Nat.zero_le 1) ?_
  intro found hfound part hm
  exact length_conjoin_le_one hfound (h part hm)

section Joining

variable (hor : ∀ l r, (language.or? l r).isSome)
include hor

theorem length_disjoin_le_one (hfound : found.length ≤ 1) (hpart : part.length ≤ 1) :
    (language.disjoin found part).length ≤ 1 := by
  match found, part with
  | [], part => simpa [disjoin] using hpart
  | [l], [] => simp [disjoin]
  | [l], [r] =>
    obtain ⟨q, hq⟩ := Option.isSome_iff_exists.1 (hor l r)
    simp [disjoin, hq]

theorem length_disjunction_le_one (h : ∀ part ∈ parts, part.length ≤ 1) : (language.disjunction parts).length ≤ 1 := by
  unfold disjunction
  split
  · exact Nat.zero_le 1
  · cases parts with
    | nil => exact Nat.zero_le 1
    | cons first rest =>
      rw [List.forall_mem_cons] at h
      refine List.foldlRecOn (motive := fun found : List Query => found.length ≤ 1) rest _ h.1 ?_
      intro found hfound part hm
      exact length_disjoin_le_one hor hfound (h.2 part hm)

theorem length_queries_le_one (f : Filter) (negated : Bool) : (language.queries negated f).length ≤ 1 := by
  have each (negated : Bool) {parts : List Filter}
      (ih : ∀ f ∈ parts, ∀ negated, (language.queries negated f).length ≤ 1) :
      ∀ part ∈ language.queriesOfEach negated parts, part.length ≤ 1 := by
    rw [queriesOfEach_eq]
    exact List.forall_mem_map.2 fun f hm => ih f hm negated
  induction f using Filter.induct generalizing negated with
  | leaf c a => exact Option.length_toList_le
  | not f ih => exact ih (!negated)
  | all parts ih =>
    have hparts := each negated ih
    unfold queries
    split
    · exact length_disjunction_le_one hor hparts
    · exact length_conjunction_le_one hparts
  | any parts ih =>
    have hparts := each negated ih
    unfold queries
    split
    · exact length_conjunction_le_one hparts
    · exact length_disjunction_le_one hor hparts

end Joining

/-! As many queries as there are ways. -/

theorem length_conjunction (hne : parts ≠ []) (h : ∀ part ∈ parts, part ≠ []) :
    (language.conjunction parts).length = (parts.map List.length).prod := by
  have fold : ∀ (rest : List (List Query)) (found : List Query), found ≠ [] → (∀ part ∈ rest, part ≠ []) →
      (rest.foldl language.conjoin found).length = found.length * (rest.map List.length).prod := by
    intro rest
    induction rest with
    | nil => intro found _ _; simp
    | cons part rest ih =>
      intro found hfound hrest
      rw [List.forall_mem_cons] at hrest
      have hlength : (language.conjoin found part).length = found.length * part.length :=
        length_conjoin hfound hrest.1
      have hjoined : language.conjoin found part ≠ [] := by
        rw [← List.length_pos_iff, hlength]
        exact Nat.mul_pos (List.length_pos_iff.2 hfound) (List.length_pos_iff.2 hrest.1)
      rw [List.foldl_cons, ih _ hjoined hrest.2, hlength, List.map_cons, List.prod_cons, Nat.mul_assoc]
  obtain ⟨first, rest, rfl⟩ := List.exists_cons_of_ne_nil hne
  rw [List.forall_mem_cons] at h
  have hfirst : language.conjoin [] first = first := by simp [conjoin]
  rw [conjunction, List.foldl_cons, hfirst, fold rest first h.1 h.2, List.map_cons, List.prod_cons]

/-- The parts of a filter without empty joins have as many queries as there are ways to meet them. -/
theorem lengths_queriesOfEach {parts : List Filter} {negated : Bool}
    (hparts : ∀ f ∈ parts, ∀ negated, f.OffersChoices negated)
    (h : ∀ f ∈ parts, (language.queries negated f).length = (f.pushed negated).ways) :
    (∀ part ∈ language.queriesOfEach negated parts, part ≠ []) ∧
      (language.queriesOfEach negated parts).map List.length = parts.map fun f => (f.pushed negated).ways := by
  rw [queriesOfEach_eq, List.map_map]
  refine ⟨List.forall_mem_map.2 fun f hm => ?_, List.map_congr_left h⟩
  rw [← List.length_pos_iff, h f hm]
  exact Filter.ways_pushed_pos (hparts f hm) negated

section Apart

variable (hor : ∀ l r, language.or? l r = none)
include hor

theorem disjoin_eq_append (found part : List Query) : language.disjoin found part = found ++ part := by
  unfold disjoin
  split
  · simp [hor]
  · rfl

theorem length_disjunction (h : ∀ part ∈ parts, part ≠ []) :
    (language.disjunction parts).length = (parts.map List.length).sum := by
  have fold : ∀ (rest : List (List Query)) (first : List Query),
      (rest.foldl language.disjoin first).length = first.length + (rest.map List.length).sum := by
    intro rest
    induction rest with
    | nil => intro first; simp
    | cons part rest ih =>
      intro first
      rw [List.foldl_cons, ih, disjoin_eq_append hor, List.length_append, List.map_cons, List.sum_cons, Nat.add_assoc]
  have hfull : ¬ parts.any List.isEmpty = true := by
    rw [List.any_eq_true]
    rintro ⟨part, hm, hempty⟩
    exact h part hm (List.isEmpty_iff.1 hempty)
  unfold disjunction
  rw [if_neg hfull]
  cases parts with
  | nil => rfl
  | cons first rest => exact fold rest first

/-- There is one query for each way of meeting the filter, or its negation where `negated`. -/
theorem length_queries (hleaf : ∀ c a negated, (language.leaf? c a negated).isSome) {f : Filter}
    (hf : ∀ negated, f.OffersChoices negated) (negated : Bool) :
    (language.queries negated f).length = (f.pushed negated).ways := by
  induction f using Filter.induct generalizing negated with
  | leaf c a =>
    obtain ⟨q, hq⟩ := Option.isSome_iff_exists.1 (hleaf c a negated)
    cases negated <;> simp [queries, hq, Filter.pushed, Filter.ways]
  | not f ih => exact ih (fun n => Bool.not_not n ▸ (hf (!n)).part_of_not) (!negated)
  | all parts ih =>
    obtain ⟨hfull, hlengths⟩ := lengths_queriesOfEach (fun f hm n => (hf n).part_of_all hm)
      fun f hm => ih f hm (fun n => (hf n).part_of_all hm) negated
    have hne : language.queriesOfEach negated parts ≠ [] := by
      simpa [queriesOfEach_eq] using (hf true).ne_nil_of_all
    rw [queries, Filter.ways_pushed_all, ← hlengths]
    split
    · exact length_disjunction hor hfull
    · exact length_conjunction hne hfull
  | any parts ih =>
    obtain ⟨hfull, hlengths⟩ := lengths_queriesOfEach (fun f hm n => (hf n).part_of_any hm)
      fun f hm => ih f hm (fun n => (hf n).part_of_any hm) negated
    have hne : language.queriesOfEach negated parts ≠ [] := by
      simpa [queriesOfEach_eq] using (hf false).ne_nil_of_any
    rw [queries, Filter.ways_pushed_any, ← hlengths]
    split
    · exact length_conjunction hne hfull
    · exact length_disjunction hor hfull

end Apart

/-- A language that joins any two queries by or has at most one query for a filter; one that joins none has one
for each way of meeting the filter with its negations moved to the comparisons. -/
theorem length_translate (language : QueryLanguage Query) :
    ((∀ l r, (language.or? l r).isSome) → ∀ filter?, (language.translate filter?).length ≤ 1) ∧
    ((∀ l r, language.or? l r = none) → (∀ c a negated, (language.leaf? c a negated).isSome) →
      ∀ f : Filter, (∀ odd, ¬ (Filter.all []).Occurs odd f ∧ ¬ (Filter.any []).Occurs odd f) →
        (language.translate (some f)).length = (f.pushed false).ways) ∧
    ∀ f : Filter, (∀ o, (f.pushed false).accepts o = f.accepts o) ∧
      ∀ odd part, (Filter.not part).Occurs odd (f.pushed false) → ∃ c a, part = .leaf c a := by
  refine ⟨fun hor filter? => ?_, fun hor hleaf f hf => ?_, fun f => ⟨fun o => ?_, fun odd part h => ?_⟩⟩
  · cases filter? with
    | none => exact Nat.zero_le 1
    | some f => exact length_queries_le_one hor f false
  · exact length_queries hor hleaf (fun negated => ⟨(hf negated).2, (hf !negated).1⟩) false
  · rw [Filter.accepts_pushed, Bool.bne_false]
  · exact Filter.eq_leaf_of_occurs_pushed h

theorem length_translate_teamAndEitherMail :
    let apart : Dialect := { plain := Comparison.all, negated := Comparison.all }
    let joining : Dialect := { joinsAny := .always }
    (∀ l r, (joining.language.or? l r).isSome) ∧
    (joining.language.translate (some teamAndEitherMail)).length ≤ 1 ∧
    (∀ l r, apart.language.or? l r = none) ∧ (∀ c a negated, (apart.language.leaf? c a negated).isSome) ∧
    (∀ odd, ¬ (Filter.all []).Occurs odd teamAndEitherMail ∧ ¬ (Filter.any []).Occurs odd teamAndEitherMail) ∧
    (apart.language.translate (some teamAndEitherMail)).length = 4 := by
  intro apart joining
  have hjoining : ∀ l r, (joining.language.or? l r).isSome := fun l r => rfl
  have hapart : ∀ l r, apart.language.or? l r = none := fun l r => rfl
  have hleaf : ∀ c a negated, (apart.language.leaf? c a negated).isSome := by
    intro c a negated
    cases negated <;> simp [apart, Dialect.language, Dialect.leaf?, Comparison.mem_all]
  have hjoins : ∀ odd,
      ¬ (Filter.all []).Occurs odd teamAndEitherMail ∧ ¬ (Filter.any []).Occurs odd teamAndEitherMail := by
    intro odd
    simp [teamAndEitherMail]
  have hways : (teamAndEitherMail.pushed false).ways = 4 := by decide
  refine ⟨hjoining, (length_translate joining.language).1 hjoining _, hapart, hleaf, hjoins, ?_⟩
  rw [(length_translate apart.language).2.1 hapart hleaf teamAndEitherMail hjoins, hways]

end QueryLanguage

end Provisioning
