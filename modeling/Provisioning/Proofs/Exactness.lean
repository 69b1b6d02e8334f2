import Provisioning.Proofs.Translation

/-! Exact translation. A query language that expresses every comparison, plain and negated, and every conjunction, each
as it is meant, loses nothing of a filter: an object is accepted if and only if the queries admit it,
`translate_exact`. Of disjunctions it may express any or none, for what it does not join is asked one by one. Only an
empty choice has no queries of its own: it would read as no constraint, where nothing is accepted. -/

namespace Provisioning

/-- A filter stands somewhere in another, under an even number of negations, or under an odd one. -/
inductive Filter.Occurs (f : Filter) : (odd : Bool) → Filter → Prop
  | here : Occurs f false f
  | ofAll {odd part parts} : part ∈ parts → Occurs f odd part → Occurs f odd (.all parts)
  | ofAny {odd part parts} : part ∈ parts → Occurs f odd part → Occurs f odd (.any parts)
  | ofNot {odd part} : Occurs f odd part → Occurs f (!odd) (.not part)

namespace Filter

section Occurs

variable {f part : Filter} {parts : List Filter} {odd : Bool}

@[simp] theorem occurs_leaf_iff {c : Comparison} {a : Attribute} :
    f.Occurs odd (.leaf c a) ↔ odd = false ∧ f = .leaf c a :=
  ⟨fun h => by cases h; exact ⟨rfl, rfl⟩, fun h => by obtain ⟨rfl, rfl⟩ := h; exact .here⟩

@[simp] theorem occurs_all_iff :
    f.Occurs odd (.all parts) ↔ odd = false ∧ f = .all parts ∨ ∃ part ∈ parts, f.Occurs odd part := by
  constructor
  · intro h
    cases h with
    | here => exact .inl ⟨rfl, rfl⟩
    | ofAll hm h => exact .inr ⟨_, hm, h⟩
  · rintro (⟨rfl, rfl⟩ | ⟨_, hm, h⟩)
    · exact .here
    · exact .ofAll hm h

@[simp] theorem occurs_any_iff :
    f.Occurs odd (.any parts) ↔ odd = false ∧ f = .any parts ∨ ∃ part ∈ parts, f.Occurs odd part := by
  constructor
  · intro h
    cases h with
    | here => exact .inl ⟨rfl, rfl⟩
    | ofAny hm h => exact .inr ⟨_, hm, h⟩
  · rintro (⟨rfl, rfl⟩ | ⟨_, hm, h⟩)
    · exact .here
    · exact .ofAny hm h

@[simp] theorem occurs_not_iff :
    f.Occurs odd (.not part) ↔ odd = false ∧ f = .not part ∨ f.Occurs (!odd) part := by
  constructor
  · intro h
    cases h with
    | here => exact .inl ⟨rfl, rfl⟩
    | ofNot h => exact .inr (by rwa [Bool.not_not])
  · rintro (⟨rfl, rfl⟩ | h)
    · exact .here
    · exact Bool.not_not odd ▸ h.ofNot

end Occurs

/-- No choice that the filter leaves, or its negation where `negated`, is empty: neither between the parts of a
disjunction, nor between those of a conjunction that is negated. -/
structure OffersChoices (negated : Bool) (f : Filter) : Prop where
  any : ¬ (Filter.any []).Occurs negated f
  all : ¬ (Filter.all []).Occurs (!negated) f

namespace OffersChoices

variable {negated : Bool} {parts : List Filter}

theorem part_of_all (h : (Filter.all parts).OffersChoices negated) {f : Filter} (hf : f ∈ parts) :
    f.OffersChoices negated :=
  ⟨fun ho => h.any (.ofAll hf ho), fun ho => h.all (.ofAll hf ho)⟩

theorem part_of_any (h : (Filter.any parts).OffersChoices negated) {f : Filter} (hf : f ∈ parts) :
    f.OffersChoices negated :=
  ⟨fun ho => h.any (.ofAny hf ho), fun ho => h.all (.ofAny hf ho)⟩

theorem part_of_not {f : Filter} (h : (Filter.not f).OffersChoices negated) : f.OffersChoices (!negated) :=
  ⟨fun ho => h.any (occurs_not_iff.2 (.inr ho)), fun ho => h.all (occurs_not_iff.2 (.inr ho))⟩

theorem ne_nil_of_any (h : (Filter.any parts).OffersChoices false) : parts ≠ [] :=
  fun he => h.any (he ▸ .here)

theorem ne_nil_of_all (h : (Filter.all parts).OffersChoices true) : parts ≠ [] :=
  fun he => h.all (he ▸ .here)

end OffersChoices

end Filter

/-- What a query finds is what it was made for, and all comparisons and conjunctions can be asked. -/
structure QueryLanguage.Exact {Query : Type} (language : QueryLanguage Query)
    (finds : Query → ConnectorObject → Prop) : Prop where
  leaf : ∀ c a negated, ∃ q, language.leaf? c a negated = some q ∧
    ∀ o, finds q o ↔ Filter.acceptsLeaf o c a ≠ negated
  and : ∀ l r, ∃ q, language.and? l r = some q ∧ ∀ o, finds q o ↔ finds l o ∧ finds r o
  or : ∀ {l r q}, language.or? l r = some q → ∀ o, finds q o ↔ finds l o ∨ finds r o

theorem Comparison.mem_all (c : Comparison) : c ∈ all := by cases c <;> decide

theorem Dialect.exact {d : Dialect} (hplain : ∀ c, c ∈ d.plain) (hnegated : ∀ c, c ∈ d.negated)
    (hjoins : d.joinsAll = true) : d.language.Exact fun q o => q.accepts o = true where
  leaf c a negated := by
    cases negated with
    | true => exact ⟨.not (.leaf c a), by simp [language, leaf?, hnegated], fun o => by simp⟩
    | false => exact ⟨.leaf c a, by simp [language, leaf?, hplain], fun o => by simp⟩
  and l r := ⟨.all [l, r], by simp [language, hjoins], fun o => by simp⟩
  or {l r q} hq o := by
    simp only [language] at hq
    split at hq
    · cases hq; simp
    · cases hq

namespace QueryLanguage

variable {Query : Type} {language : QueryLanguage Query} {finds : Query → ConnectorObject → Prop}
  {o : ConnectorObject}

theorem Exact.widens (h : language.Exact finds) : language.Widens finds where
  leaf {c a negated q} hq o ho := by
    obtain ⟨q', hq', hfinds⟩ := h.leaf c a negated
    cases hq.symm.trans hq'
    exact (hfinds o).2 ho
  and {l r q} hq o hl hr := by
    obtain ⟨q', hq', hfinds⟩ := h.and l r
    cases hq.symm.trans hq'
    exact (hfinds o).2 ⟨hl, hr⟩
  or hq o ho := (h.or hq o).2 ho

theorem found_of_conjoin (h : language.Exact finds) {found part : List Query}
    (hq : ∃ q ∈ found.flatMap fun l => part.map fun r => (language.and? l r).getD l, finds q o) :
    (∃ q ∈ found, finds q o) ∧ ∃ q ∈ part, finds q o := by
  obtain ⟨q, hm, hqo⟩ := hq
  obtain ⟨l, hl, hm⟩ := List.mem_flatMap.1 hm
  obtain ⟨r, hr, rfl⟩ := List.mem_map.1 hm
  obtain ⟨q', hq', hfinds⟩ := h.and l r
  rw [hq', Option.getD_some, hfinds] at hqo
  exact ⟨⟨l, hl, hqo.1⟩, r, hr, hqo.2⟩

theorem admits_of_conjoin (h : language.Exact finds) {found part : List Query}
    (ha : Admits finds (language.conjoin found part) o) : Admits finds found o ∧ Admits finds part o := by
  unfold conjoin at ha
  split at ha
  · next hpart => exact ⟨ha, .inl (List.isEmpty_iff.1 hpart)⟩
  · next hpart =>
    split at ha
    · next hfound => exact ⟨.inl (List.isEmpty_iff.1 hfound), ha⟩
    · next hfound =>
      have hproduct : (found.flatMap fun l => part.map fun r => (language.and? l r).getD l) ≠ [] := by
        rw [List.isEmpty_iff] at hpart hfound
        obtain ⟨l, found, rfl⟩ := List.exists_cons_of_ne_nil hfound
        obtain ⟨r, part, rfl⟩ := List.exists_cons_of_ne_nil hpart
        simp
      exact (found_of_conjoin h (ha.resolve_left hproduct)).imp .inr .inr

theorem admits_of_conjunction (h : language.Exact finds) {parts : List (List Query)}
    (ha : Admits finds (language.conjunction parts) o) : ∀ part ∈ parts, Admits finds part o := by
  have fold : ∀ (parts : List (List Query)) (found : List Query),
      Admits finds (parts.foldl language.conjoin found) o →
        Admits finds found o ∧ ∀ part ∈ parts, Admits finds part o := by
    intro parts
    induction parts with
    | nil => intro found ha; exact ⟨ha, by simp⟩
    | cons part rest ih =>
      intro found ha
      obtain ⟨hconjoined, hrest⟩ := ih _ ha
      obtain ⟨hfound, hpart⟩ := admits_of_conjoin h hconjoined
      exact ⟨hfound, List.forall_mem_cons.2 ⟨hpart, hrest⟩⟩
  exact (fold parts [] ha).2

/-- Whether or not a pair was joined, nothing is found that neither of its sides finds. -/
theorem found_of_disjoin (h : language.Exact finds) {found part : List Query}
    (hq : ∃ q ∈ language.disjoin found part, finds q o) :
    (∃ q ∈ found, finds q o) ∨ ∃ q ∈ part, finds q o := by
  have happ : (∃ q ∈ found ++ part, finds q o) → (∃ q ∈ found, finds q o) ∨ ∃ q ∈ part, finds q o := by
    rintro ⟨q, hm, hqo⟩
    exact (List.mem_append.1 hm).imp (fun hm => ⟨q, hm, hqo⟩) fun hm => ⟨q, hm, hqo⟩
  unfold disjoin at hq
  split at hq
  · next l r =>
    cases hor : language.or? l r with
    | none => rw [hor] at hq; exact happ hq
    | some joined =>
      rw [hor] at hq
      obtain ⟨q, hm, hqo⟩ := hq
      obtain rfl : q = joined := by simpa using hm
      exact ((h.or hor o).1 hqo).imp (fun hl => ⟨l, by simp, hl⟩) fun hr => ⟨r, by simp, hr⟩
  · exact happ hq

theorem found_of_disjunction (h : language.Exact finds) :
    ∀ (rest : List (List Query)) (first : List Query), (∃ q ∈ rest.foldl language.disjoin first, finds q o) →
      ∃ part ∈ first :: rest, ∃ q ∈ part, finds q o := by
  intro rest
  induction rest with
  | nil => intro first hq; simpa using hq
  | cons part rest ih =>
    intro first hq
    obtain ⟨found, hm, hq⟩ := ih _ hq
    rcases List.mem_cons.1 hm with rfl | hm
    · rcases found_of_disjoin h hq with hq | hq
      · exact ⟨first, by simp, hq⟩
      · exact ⟨part, by simp, hq⟩
    · exact ⟨found, by simp [hm], hq⟩

theorem foldl_disjoin_ne_nil (rest : List (List Query)) {first : List Query} (hfirst : first ≠ []) :
    rest.foldl language.disjoin first ≠ [] := by
  induction rest generalizing first with
  | nil => exact hfirst
  | cons part rest ih =>
    apply ih
    unfold disjoin
    split
    · next l r => cases language.or? l r <;> simp
    · exact List.append_ne_nil_of_left_ne_nil hfirst part

theorem admits_of_disjunction (h : language.Exact finds) {parts : List (List Query)} (hne : parts ≠ [])
    (ha : Admits finds (language.disjunction parts) o) : ∃ part ∈ parts, Admits finds part o := by
  unfold disjunction at ha
  split at ha
  · next hempty =>
    obtain ⟨part, hm, hpart⟩ := List.any_eq_true.1 hempty
    exact ⟨part, hm, .inl (List.isEmpty_iff.1 hpart)⟩
  · next hfull =>
    obtain ⟨first, rest, rfl⟩ := List.exists_cons_of_ne_nil hne
    have hfirst : first ≠ [] := fun he => hfull (by simp [he])
    obtain ⟨part, hm, hpart⟩ := found_of_disjunction h rest first (ha.resolve_left (foldl_disjoin_ne_nil rest hfirst))
    exact ⟨part, hm, .inr hpart⟩

/-- Admitted by the queries for a filter are only the objects that it accepts, by those for its negation only those
that it rejects. -/
theorem accepts_of_admits (h : language.Exact finds) (f : Filter) {negated : Bool} (hf : f.OffersChoices negated)
    (ha : Admits finds (language.queries negated f) o) : f.accepts o ≠ negated := by
  induction f using Filter.induct generalizing negated with
  | leaf c a =>
    obtain ⟨q, hq, hfinds⟩ := h.leaf c a negated
    rw [queries, hq] at ha
    obtain ⟨q', hm, hqo⟩ := ha.resolve_left (List.cons_ne_nil q [])
    obtain rfl : q' = q := by simpa using hm
    exact (hfinds o).1 hqo
  | not f ih =>
    rw [queries] at ha
    have hpart := ih hf.part_of_not ha
    rw [Filter.accepts_not]
    cases negated <;> simpa using hpart
  | all parts ih =>
    rw [queries, queriesOfEach_eq] at ha
    rw [Filter.accepts_all]
    cases negated with
    | true =>
      obtain ⟨_, hqueries, hpart⟩ := admits_of_disjunction h (by simpa using hf.ne_nil_of_all) ha
      obtain ⟨f, hm, rfl⟩ := List.mem_map.1 hqueries
      have hrejects : f.accepts o = false := by simpa using ih f hm (hf.part_of_all hm) hpart
      simpa using ⟨f, hm, hrejects⟩
    | false =>
      have hparts := admits_of_conjunction h ha
      have haccepts : ∀ f ∈ parts, f.accepts o = true := fun f hm => by
        simpa using ih f hm (hf.part_of_all hm) (hparts _ (List.mem_map.2 ⟨f, hm, rfl⟩))
      simpa using haccepts
  | any parts ih =>
    rw [queries, queriesOfEach_eq] at ha
    rw [Filter.accepts_any]
    cases negated with
    | true =>
      have hparts := admits_of_conjunction h ha
      have hrejects : ∀ f ∈ parts, f.accepts o = false := fun f hm => by
        simpa using ih f hm (hf.part_of_any hm) (hparts _ (List.mem_map.2 ⟨f, hm, rfl⟩))
      simpa using hrejects
    | false =>
      obtain ⟨_, hqueries, hpart⟩ := admits_of_disjunction h (by simpa using hf.ne_nil_of_any) ha
      obtain ⟨f, hm, rfl⟩ := List.mem_map.1 hqueries
      have haccepts : f.accepts o = true := by simpa using ih f hm (hf.part_of_any hm) hpart
      simpa using ⟨f, hm, haccepts⟩

/-- Where a query language is exact and no choice that a filter leaves is empty, the filter accepts just the objects
that its queries admit. -/
theorem translate_exact (h : language.Exact finds) {f : Filter}
    (hany : ¬ (Filter.any []).Occurs false f) (hall : ¬ (Filter.all []).Occurs true f) (o : ConnectorObject) :
    f.accepts o = true ↔
      language.translate (some f) = [] ∨ ∃ q ∈ language.translate (some f), finds q o := by
  rw [← Bool.ne_false_iff]
  exact ⟨admits_queries h.widens f false, accepts_of_admits h f ⟨hany, hall⟩⟩

def fluent : Dialect := { plain := Comparison.all, negated := Comparison.all, joinsAny := .comparisons }

def teamAndEitherMail : Filter :=
  .all [.any [.leaf .equals (.single "team" (.string "red")), .leaf .equals (.single "team" (.string "blue"))],
    .not (.all [.leaf .endsWith (.single "mail" (.string ".org")),
      .not (.leaf .startsWith (.single "mail" (.string "a")))])]

theorem translate_exact_teamAndEitherMail :
    fluent.language.Exact (fun q o => q.accepts o = true) ∧
    ¬ (Filter.any []).Occurs false teamAndEitherMail ∧ ¬ (Filter.all []).Occurs true teamAndEitherMail ∧
    (fluent.language.translate (some teamAndEitherMail)).length = 2 ∧
    ∀ o, teamAndEitherMail.accepts o = true ↔
      ∃ q ∈ fluent.language.translate (some teamAndEitherMail), q.accepts o = true := by
  have hexact : fluent.language.Exact fun q o => q.accepts o = true :=
    Dialect.exact Comparison.mem_all Comparison.mem_all rfl
  have hany : ¬ (Filter.any []).Occurs false teamAndEitherMail := by simp [teamAndEitherMail]
  have hall : ¬ (Filter.all []).Occurs true teamAndEitherMail := by simp [teamAndEitherMail]
  have hqueries : (fluent.language.translate (some teamAndEitherMail)).length = 2 := rfl
  have hne : fluent.language.translate (some teamAndEitherMail) ≠ [] := List.ne_nil_of_length_eq_add_one hqueries
  refine ⟨hexact, hany, hall, hqueries, fun o => ?_⟩
  rw [translate_exact hexact hany hall o, or_iff_right hne]

end QueryLanguage

end Provisioning
