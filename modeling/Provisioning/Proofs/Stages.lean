import Provisioning.Stage

/-! Laws of the stages. Two stages of one kind are one stage, a check can be made before a change, and what
is done to the items does not touch the result. A handler behind stages is itself a handler of what the
source passes. -/

namespace Provisioning

namespace Delivery

variable {α β γ ρ τ υ σ : Type}

section Items

theorem mapItems_mapItems (f : α → β) (g : β → γ) (d : Delivery α ρ) :
    (d.mapItems f).mapItems g = d.mapItems fun a => g (f a) := by
  induction d with
  | done r => rfl
  | pass a next ih => simp only [mapItems, ih]

theorem filterItems_true (d : Delivery α ρ) : (d.filterItems fun _ => true) = d := by
  induction d with
  | done r => rfl
  | pass a next ih => simp only [filterItems, if_true, ih]

theorem filterItems_mapItems (f : α → β) (p : β → Bool) (d : Delivery α ρ) :
    (d.mapItems f).filterItems p = (d.filterItems fun a => p (f a)).mapItems f := by
  induction d with
  | done r => rfl
  | pass a next ih =>
    simp only [mapItems, filterItems]
    split
    · simp only [mapItems, ih]
    · exact ih true

theorem andThen_mapItems (f : α → β) (d : Delivery α ρ) (k : ρ → Delivery α τ) :
    (d.andThen k).mapItems f = (d.mapItems f).andThen fun r => (k r).mapItems f := by
  induction d with
  | done r => rfl
  | pass a next ih => simp only [andThen, mapItems, ih]

theorem untilStopped_map (f : α → β) (r : ρ) (l : List α) :
    untilStopped r (l.map f) = (untilStopped r l).mapItems f := by
  induction l with
  | nil => rfl
  | cons a rest ih =>
    simp only [List.map_cons, untilStopped, mapItems, ih]
    congr 1
    funext go
    cases go <;> rfl

/-- A change that keeps Uids changes nothing about which objects are repetitions. -/
theorem distinct_mapItems {f : ConnectorObject → ConnectorObject} (hf : ∀ o, (f o).uid = o.uid)
    (d : Delivery ConnectorObject ρ) (memory : Distinct) :
    (d.mapItems f).distinct memory = (d.distinct memory).mapItems f := by
  induction d generalizing memory with
  | done r => rfl
  | pass o next ih =>
    simp only [mapItems, distinct, hf]
    split
    · exact ih true memory
    · simp only [mapItems, ih]

end Items

section Results

variable (f : ρ → τ)

theorem mapResult_mapResult (g : τ → υ) (d : Delivery α ρ) :
    (d.mapResult f).mapResult g = d.mapResult fun r => g (f r) := by
  induction d with
  | done r => rfl
  | pass a next ih => simp only [mapResult, ih]

theorem mapResult_mapItems (g : α → β) (d : Delivery α ρ) :
    (d.mapItems g).mapResult f = (d.mapResult f).mapItems g := by
  induction d with
  | done r => rfl
  | pass a next ih => simp only [mapItems, mapResult, ih]

theorem mapResult_filterItems (p : α → Bool) (d : Delivery α ρ) :
    (d.filterItems p).mapResult f = (d.mapResult f).filterItems p := by
  induction d with
  | done r => rfl
  | pass a next ih =>
    simp only [filterItems, mapResult]
    split
    · simp only [mapResult, ih]
    · exact ih true

theorem mapResult_andThen (d : Delivery α υ) (k : υ → Delivery α ρ) :
    (d.andThen k).mapResult f = d.andThen fun r => (k r).mapResult f := by
  induction d with
  | done r => rfl
  | pass a next ih => simp only [andThen, mapResult, ih]

theorem andThen_mapResult (d : Delivery α ρ) (k : τ → Delivery α υ) :
    (d.mapResult f).andThen k = d.andThen fun r => k (f r) := by
  induction d with
  | done r => rfl
  | pass a next ih => simp only [andThen, mapResult, ih]

theorem distinct_mapResult (d : Delivery ConnectorObject ρ) (memory : Distinct) :
    (d.mapResult f).distinct memory = (d.distinct memory).mapResult (Prod.map f id) := by
  induction d generalizing memory with
  | done r => rfl
  | pass o next ih =>
    simp only [mapResult, distinct]
    split
    · exact ih true memory
    · simp only [mapResult, ih]

end Results

section Handlers

theorem run_mapItems (f : α → β) (d : Delivery α ρ) (handler : Handler β σ) :
    (d.mapItems f).run handler = d.run fun a => handler (f a) := by
  induction d with
  | done r => rfl
  | pass a next ih => simp only [mapItems, run, ih]

theorem run_filterItems (p : α → Bool) (d : Delivery α ρ) (handler : Handler α σ) :
    (d.filterItems p).run handler = d.run fun a => if p a then handler a else pure true := by
  induction d with
  | done r => rfl
  | pass a next ih =>
    unfold filterItems
    by_cases h : p a
    · simp only [h, if_true, run, ih]
    · simp only [h, Bool.false_eq_true, if_false, run, ih, pure_bind]

theorem run_andThen (d : Delivery α ρ) (k : ρ → Delivery α τ) (handler : Handler α σ) :
    (d.andThen k).run handler = d.run handler >>= fun r => (k r).run handler := by
  induction d with
  | done r => simp only [andThen, run, pure_bind]
  | pass a next ih => simp only [andThen, run, ih, bind_assoc]

theorem run_mapResult (f : ρ → τ) (d : Delivery α ρ) (handler : Handler α σ) (s : σ) :
    ((d.mapResult f).run handler).run s = Prod.map f id ((d.run handler).run s) := by
  induction d generalizing s with
  | done r => rfl
  | pass a next ih => exact ih _ _

end Handlers

def Only (P : α → Prop) : Delivery α ρ → Prop
  | done _ => True
  | pass a next => P a ∧ ∀ go, (next go).Only P

section Only

variable {P Q : α → Prop}

theorem Only.mono {d : Delivery α ρ} (hd : d.Only P) (h : ∀ a, P a → Q a) : d.Only Q := by
  induction d with
  | done r => trivial
  | pass a next ih => exact ⟨h a hd.1, fun go => ih go (hd.2 go)⟩

theorem Only.andThen {d : Delivery α ρ} {k : ρ → Delivery α τ} (hd : d.Only P) (hk : ∀ r, (k r).Only P) :
    (d.andThen k).Only P := by
  induction d with
  | done r => exact hk r
  | pass a next ih => exact ⟨hd.1, fun go => ih go (hd.2 go)⟩

theorem Only.filterItems {d : Delivery α ρ} (hd : d.Only P) (p : α → Bool) : (d.filterItems p).Only P := by
  induction d with
  | done r => trivial
  | pass a next ih =>
    unfold Delivery.filterItems
    split
    · exact ⟨hd.1, fun go => ih go (hd.2 go)⟩
    · exact ih true (hd.2 true)

theorem Only.distinct {P : ConnectorObject → Prop} {d : Delivery ConnectorObject ρ} (hd : d.Only P)
    (memory : Distinct) : (d.distinct memory).Only P := by
  induction d generalizing memory with
  | done r => trivial
  | pass o next ih =>
    unfold Delivery.distinct
    split
    · exact ih true (hd.2 true) memory
    · exact ⟨hd.1, fun go => ih go (hd.2 go) _⟩

theorem only_untilStopped {l : List α} (h : ∀ a ∈ l, P a) (r : ρ) : (untilStopped r l).Only P := by
  induction l with
  | nil => trivial
  | cons a rest ih =>
    rw [List.forall_mem_cons] at h
    refine ⟨h.1, fun go => ?_⟩
    cases go with
    | true => exact ih h.2
    | false => trivial

theorem filterItems_congr {d : Delivery α ρ} (hd : d.Only P) {p q : α → Bool} (h : ∀ a, P a → p a = q a) :
    d.filterItems p = d.filterItems q := by
  induction d with
  | done r => rfl
  | pass a next ih =>
    simp only [filterItems, h a hd.1]
    split
    · exact congrArg _ (funext fun go => ih go (hd.2 go))
    · exact ih true (hd.2 true)

theorem mapItems_congr {d : Delivery α ρ} (hd : d.Only P) {f g : α → β} (h : ∀ a, P a → f a = g a) :
    d.mapItems f = d.mapItems g := by
  induction d with
  | done r => rfl
  | pass a next ih =>
    simp only [mapItems, h a hd.1]
    exact congrArg _ (funext fun go => ih go (hd.2 go))

end Only

end Delivery

end Provisioning
