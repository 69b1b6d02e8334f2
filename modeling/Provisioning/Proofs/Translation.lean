import Provisioning.Filter.Dialect

/-! Translation only widens. If every comparison and every join of a query language finds at least what
it stands for, then the queries for a filter find at least what the filter accepts: `translate_covers`.
What the language cannot express is dropped under a conjunction, and leaves a disjunction without any
constraint, so the induction runs over single objects and lets a list without queries pass them all. -/

namespace Provisioning

/-- No queries are no constraint; otherwise every object that the filter accepts is found by one of them. -/
def Covers {Query : Type} (finds : Query → ConnectorObject → Prop) (filter? : Option Filter)
    (queries : List Query) : Prop :=
  queries = [] ∨ ∀ o, (filter?.all fun f => f.accepts o) = true → ∃ q ∈ queries, finds q o

/-- What a query finds is at least what it was made for. -/
structure QueryLanguage.Widens {Query : Type} (language : QueryLanguage Query)
    (finds : Query → ConnectorObject → Prop) : Prop where
  leaf : ∀ {c a negated q}, language.leaf? c a negated = some q →
    ∀ o, Filter.acceptsLeaf o c a ≠ negated → finds q o
  and : ∀ {l r q}, language.and? l r = some q → ∀ o, finds l o → finds r o → finds q o
  or : ∀ {l r q}, language.or? l r = some q → ∀ o, finds l o ∨ finds r o → finds q o

theorem Dialect.widens (d : Dialect) : d.language.Widens fun q o => q.accepts o = true where
  leaf {c a negated q} hq o ho := by
    simp only [language, leaf?] at hq
    split at hq <;> split at hq
    · next hn _ => cases hq; simpa [hn] using ho
    · cases hq
    · next hn _ => cases hq; simpa [hn] using ho
    · cases hq
  and {l r q} hq o hl hr := by
    simp only [language] at hq
    split at hq
    · cases hq; simp [hl, hr]
    · cases hq
  or {l r q} hq o ho := by
    simp only [language] at hq
    split at hq
    · cases hq; simpa using ho
    · cases hq

namespace QueryLanguage

variable {Query : Type} {language : QueryLanguage Query} {finds : Query → ConnectorObject → Prop}
  {o : ConnectorObject}

/-- Queries admit an object that one of them finds; without queries there is no constraint. -/
def Admits (finds : Query → ConnectorObject → Prop) (queries : List Query) (o : ConnectorObject) : Prop :=
  queries = [] ∨ ∃ q ∈ queries, finds q o

theorem found_conjoin (h : language.Widens finds) {found part : List Query}
    (hf : ∃ q ∈ found, finds q o) (hp : ∃ q ∈ part, finds q o) :
    ∃ q ∈ found.flatMap fun l => part.map fun r => (language.and? l r).getD l, finds q o := by
  obtain ⟨l, hl, hlo⟩ := hf
  obtain ⟨r, hr, hro⟩ := hp
  refine ⟨(language.and? l r).getD l, List.mem_flatMap.2 ⟨l, hl, List.mem_map.2 ⟨r, hr, rfl⟩⟩, ?_⟩
  cases hq : language.and? l r with
  | none => exact hlo
  | some q => exact h.and hq o hlo hro

theorem admits_conjoin (h : language.Widens finds) {found part : List Query}
    (hf : Admits finds found o) (hp : Admits finds part o) :
    Admits finds (language.conjoin found part) o := by
  unfold conjoin
  split
  · exact hf
  · next hpart =>
    split
    · exact hp
    · next hfound =>
      rw [List.isEmpty_iff] at hpart hfound
      exact .inr (found_conjoin h (hf.resolve_left hfound) (hp.resolve_left hpart))

theorem admits_conjunction (h : language.Widens finds) {parts : List (List Query)}
    (hp : ∀ part ∈ parts, Admits finds part o) : Admits finds (language.conjunction parts) o := by
  have fold : ∀ (parts : List (List Query)) (found : List Query), Admits finds found o →
      (∀ part ∈ parts, Admits finds part o) → Admits finds (parts.foldl language.conjoin found) o := by
    intro parts
    induction parts with
    | nil => intro found hf _; exact hf
    | cons part rest ih =>
      intro found hf hp
      rw [List.forall_mem_cons] at hp
      exact ih _ (admits_conjoin h hf hp.1) hp.2
  exact fold parts [] (.inl rfl) hp

theorem found_disjoin (h : language.Widens finds) {found part : List Query}
    (hq : (∃ q ∈ found, finds q o) ∨ ∃ q ∈ part, finds q o) :
    ∃ q ∈ language.disjoin found part, finds q o := by
  have happ : ∃ q ∈ found ++ part, finds q o := by
    rcases hq with ⟨q, hm, ho⟩ | ⟨q, hm, ho⟩
    · exact ⟨q, List.mem_append_left _ hm, ho⟩
    · exact ⟨q, List.mem_append_right _ hm, ho⟩
  unfold disjoin
  split
  · next l r =>
    cases hor : language.or? l r with
    | none => exact happ
    | some q =>
      have hlr : finds l o ∨ finds r o := by simpa using happ
      exact ⟨q, by simp, h.or hor o hlr⟩
  · exact happ

theorem found_disjunction (h : language.Widens finds) :
    ∀ (rest : List (List Query)) (first : List Query),
      (∃ part ∈ first :: rest, ∃ q ∈ part, finds q o) → ∃ q ∈ rest.foldl language.disjoin first, finds q o := by
  intro rest
  induction rest with
  | nil => intro first hq; simpa using hq
  | cons part rest ih =>
    intro first hq
    apply ih
    rcases hq with ⟨found, hm, hq⟩
    rw [List.mem_cons, List.mem_cons] at hm
    rcases hm with rfl | rfl | hm
    · exact ⟨_, List.mem_cons_self, found_disjoin h (.inl hq)⟩
    · exact ⟨_, List.mem_cons_self, found_disjoin h (.inr hq)⟩
    · exact ⟨found, List.mem_cons_of_mem _ hm, hq⟩

theorem admits_disjunction (h : language.Widens finds) {parts : List (List Query)}
    (hp : ∃ part ∈ parts, Admits finds part o) : Admits finds (language.disjunction parts) o := by
  unfold disjunction
  split
  · exact .inl rfl
  · next hne =>
    -- no part is without queries, so the one that admits the object finds it
    obtain ⟨part, hm, hp⟩ := hp
    have hpart : part ≠ [] := fun he => hne (List.any_eq_true.2 ⟨part, hm, by simp [he]⟩)
    cases parts with
    | nil => exact absurd hm List.not_mem_nil
    | cons first rest => exact .inr (found_disjunction h rest first ⟨part, hm, hp.resolve_left hpart⟩)

/-- The queries for a filter admit what it accepts, those for its negation what it rejects. -/
theorem admits_queries (h : language.Widens finds) (f : Filter) (negated : Bool)
    (hf : f.accepts o ≠ negated) : Admits finds (language.queries negated f) o := by
  induction f using Filter.induct generalizing negated with
  | leaf c a =>
    unfold queries
    cases hq : language.leaf? c a negated with
    | none => exact .inl rfl
    | some q => exact .inr ⟨q, by simp, h.leaf hq o hf⟩
  | not f ih =>
    unfold queries
    apply ih
    rw [Filter.accepts_not] at hf
    cases negated <;> simpa using hf
  | all parts ih =>
    rw [Filter.accepts_all] at hf
    unfold queries
    rw [queriesOfEach_eq]
    cases negated with
    | true =>
      obtain ⟨f, hm, hf⟩ : ∃ f ∈ parts, f.accepts o = false := by simpa using hf
      refine admits_disjunction h ⟨_, List.mem_map.2 ⟨f, hm, rfl⟩, ih f hm true ?_⟩
      simp [hf]
    | false =>
      refine admits_conjunction h fun part hpart => ?_
      obtain ⟨f, hm, rfl⟩ := List.mem_map.1 hpart
      have hall : ∀ f ∈ parts, f.accepts o = true := by simpa using hf
      exact ih f hm false (by simp [hall f hm])
  | any parts ih =>
    rw [Filter.accepts_any] at hf
    unfold queries
    rw [queriesOfEach_eq]
    cases negated with
    | true =>
      refine admits_conjunction h fun part hpart => ?_
      obtain ⟨f, hm, rfl⟩ := List.mem_map.1 hpart
      have hnone : ∀ f ∈ parts, f.accepts o = false := by simpa using hf
      exact ih f hm true (by simp [hnone f hm])
    | false =>
      obtain ⟨f, hm, hf⟩ : ∃ f ∈ parts, f.accepts o = true := by simpa using hf
      refine admits_disjunction h ⟨_, List.mem_map.2 ⟨f, hm, rfl⟩, ih f hm false ?_⟩
      simp [hf]

/-- The queries that a language has for a filter find every object that the filter accepts. -/
theorem translate_covers (h : language.Widens finds) (filter? : Option Filter) :
    Covers finds filter? (language.translate filter?) := by
  cases filter? with
  | none => exact .inl rfl
  | some f =>
    by_cases hempty : language.queries false f = []
    · exact .inl hempty
    · refine .inr fun o ho => ?_
      have hf : f.accepts o ≠ false := by simpa using ho
      exact (admits_queries h f false hf).resolve_left hempty

/-- Asks for one of two teams and, in a roundabout way, for a start of the mail address and against an
end of it. -/
def teamAndMail : Filter :=
  .all [.any [.leaf .equals (.single "team" (.string "red")), .leaf .equals (.single "team" (.string "blue"))],
    .not (.any [.leaf .endsWith (.single "mail" (.string ".org")),
      .not (.leaf .startsWith (.single "mail" (.string "a")))])]

theorem translate_covers_teamAndMail :
    ({} : Dialect).language.Widens (fun q o => q.accepts o = true) ∧
    (({} : Dialect).language.translate (some teamAndMail)).length = 2 ∧
    Covers (fun q o => q.accepts o = true) (some teamAndMail)
      (({} : Dialect).language.translate (some teamAndMail)) :=
  ⟨Dialect.widens {}, rfl, translate_covers (Dialect.widens {}) (some teamAndMail)⟩

end QueryLanguage

end Provisioning
