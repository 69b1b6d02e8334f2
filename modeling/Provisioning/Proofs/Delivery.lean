import Provisioning.Stage

/-! What a delivery comes to when its receiver never asks to stop: the items passed, and the result. Each
way to change a delivery changes these two, and a handler that always goes on gets exactly those items.
The stage that drops repetitions keeps the first object of each Uid. -/

namespace Provisioning

def Handler.GoesOn {α σ : Type} (handler : Handler α σ) : Prop := ∀ a s, (handler a s).1 = true

def Handler.after {α σ : Type} (handler : Handler α σ) (items : List α) (s : σ) : σ :=
  items.foldl (fun s a => (handler a s).2) s

namespace Delivery

variable {α β ρ τ σ : Type}

/-- The items passed to a receiver that never asks to stop. -/
def passed : Delivery α ρ → List α
  | done _ => []
  | pass a next => a :: (next true).passed

def finished : Delivery α ρ → ρ
  | done r => r
  | pass _ next => (next true).finished

@[simp] theorem passed_andThen (d : Delivery α ρ) (k : ρ → Delivery α τ) :
    (d.andThen k).passed = d.passed ++ (k d.finished).passed := by
  induction d with
  | done r => rfl
  | pass a next ih => simp only [andThen, passed, finished, ih, List.cons_append]

@[simp] theorem finished_andThen (d : Delivery α ρ) (k : ρ → Delivery α τ) :
    (d.andThen k).finished = (k d.finished).finished := by
  induction d with
  | done r => rfl
  | pass a next ih => exact ih true

@[simp] theorem passed_mapItems (f : α → β) (d : Delivery α ρ) :
    (d.mapItems f).passed = d.passed.map f := by
  induction d with
  | done r => rfl
  | pass a next ih => simp only [mapItems, passed, ih, List.map_cons]

@[simp] theorem finished_mapItems (f : α → β) (d : Delivery α ρ) :
    (d.mapItems f).finished = d.finished := by
  induction d with
  | done r => rfl
  | pass a next ih => exact ih true

@[simp] theorem passed_filterItems (p : α → Bool) (d : Delivery α ρ) :
    (d.filterItems p).passed = d.passed.filter p := by
  induction d with
  | done r => rfl
  | pass a next ih =>
    unfold filterItems
    by_cases h : p a
    · simp only [h, if_true, passed, ih, List.filter_cons_of_pos]
    · simp only [h, passed, ih, Bool.false_eq_true, if_false, List.filter_cons_of_neg, not_false_eq_true]

@[simp] theorem finished_filterItems (p : α → Bool) (d : Delivery α ρ) :
    (d.filterItems p).finished = d.finished := by
  induction d with
  | done r => rfl
  | pass a next ih =>
    unfold filterItems
    split
    · exact ih true
    · exact ih true

@[simp] theorem passed_untilStopped (r : ρ) (l : List α) : (untilStopped r l).passed = l := by
  induction l with
  | nil => rfl
  | cons a rest ih => simp only [untilStopped, passed, if_true, ih]

@[simp] theorem finished_untilStopped (r : ρ) (l : List α) : (untilStopped r l).finished = r := by
  induction l with
  | nil => rfl
  | cons a rest ih => simp only [untilStopped, finished, if_true, ih]

@[simp] theorem passed_regardless (r : ρ) (l : List α) : (regardless r l).passed = l := by
  induction l with
  | nil => rfl
  | cons a rest ih => simp only [regardless, passed, ih]

@[simp] theorem finished_regardless (r : ρ) (l : List α) : (regardless r l).finished = r := by
  induction l with
  | nil => rfl
  | cons a rest ih => simp only [regardless, finished, ih]

/-- A handler that always goes on is handed all that the delivery passes. -/
theorem run_of_goesOn {handler : Handler α σ} (h : handler.GoesOn) (d : Delivery α ρ) (s : σ) :
    (d.run handler).run s = (d.finished, handler.after d.passed s) := by
  induction d generalizing s with
  | done r => rfl
  | pass a next ih =>
    have hgo : (handler a).run s = (true, (handler a s).2) := Prod.ext (h a s) rfl
    rw [run, StateT.run_bind, hgo]
    exact ih true _

/-- Of objects with one Uid, the first; none whose Uid was seen before. -/
def firstOfEach (seen : List Uid) : List ConnectorObject → List ConnectorObject
  | [] => []
  | o :: rest => if o.uid ∈ seen then firstOfEach seen rest else o :: firstOfEach (o.uid :: seen) rest

def seenAfter (seen : List Uid) (objects : List ConnectorObject) : List Uid :=
  objects.foldl (fun seen o => if o.uid ∈ seen then seen else o.uid :: seen) seen

theorem seenAfter_cons (seen : List Uid) (o : ConnectorObject) (rest : List ConnectorObject) :
    seenAfter seen (o :: rest) = seenAfter (if o.uid ∈ seen then seen else o.uid :: seen) rest := rfl

theorem firstOfEach_append (seen : List Uid) (l m : List ConnectorObject) :
    firstOfEach seen (l ++ m) = firstOfEach seen l ++ firstOfEach (seenAfter seen l) m := by
  induction l generalizing seen with
  | nil => rfl
  | cons o rest ih =>
    rw [List.cons_append, seenAfter_cons]
    by_cases h : o.uid ∈ seen
    · rw [if_pos h, firstOfEach, if_pos h, firstOfEach, if_pos h, ih]
    · rw [if_neg h, firstOfEach, if_neg h, firstOfEach, if_neg h, ih, List.cons_append]

theorem mem_of_mem_firstOfEach {seen : List Uid} {l : List ConnectorObject} {o : ConnectorObject}
    (h : o ∈ firstOfEach seen l) : o ∈ l ∧ o.uid ∉ seen := by
  induction l generalizing seen with
  | nil => exact absurd h List.not_mem_nil
  | cons p rest ih =>
    unfold firstOfEach at h
    split at h
    · exact ⟨List.mem_cons_of_mem _ (ih h).1, (ih h).2⟩
    · next hp =>
      rcases List.mem_cons.1 h with rfl | h
      · exact ⟨List.mem_cons_self, hp⟩
      · exact ⟨List.mem_cons_of_mem _ (ih h).1, fun hs => (ih h).2 (List.mem_cons_of_mem _ hs)⟩

theorem nodup_firstOfEach (seen : List Uid) (l : List ConnectorObject) :
    ((firstOfEach seen l).map (·.uid)).Nodup := by
  induction l generalizing seen with
  | nil => exact List.nodup_nil
  | cons o rest ih =>
    unfold firstOfEach
    split
    · exact ih seen
    · rw [List.map_cons, List.nodup_cons]
      refine ⟨fun h => ?_, ih _⟩
      obtain ⟨p, hp, he⟩ := List.mem_map.1 h
      exact (mem_of_mem_firstOfEach hp).2 (he ▸ List.mem_cons_self)

theorem exists_mem_firstOfEach {seen : List Uid} {l : List ConnectorObject} {o : ConnectorObject}
    (h : o ∈ l) (hs : o.uid ∉ seen) : ∃ p ∈ firstOfEach seen l, p.uid = o.uid := by
  induction l generalizing seen with
  | nil => exact absurd h List.not_mem_nil
  | cons p rest ih =>
    unfold firstOfEach
    by_cases he : p.uid = o.uid
    · rw [if_neg (he ▸ hs)]
      exact ⟨p, List.mem_cons_self, he⟩
    · have hr : o ∈ rest := (List.mem_cons.1 h).resolve_left fun e => he (by rw [e])
      split
      · exact ih hr hs
      · have hs' : o.uid ∉ p.uid :: seen := by simp [hs, Ne.symm he]
        obtain ⟨q, hq, hqo⟩ := ih hr hs'
        exact ⟨q, List.mem_cons_of_mem _ hq, hqo⟩

theorem passed_distinct (seen : List Uid) (go : Bool) (d : Delivery ConnectorObject ρ) :
    (d.distinct ⟨seen, go⟩).passed = firstOfEach seen d.passed := by
  induction d generalizing seen go with
  | done r => rfl
  | pass o next ih =>
    unfold distinct firstOfEach
    by_cases h : o.uid ∈ seen
    · simp only [h, if_true, passed, ih]
    · simp only [h, if_false, passed, ih]

theorem finished_distinct (seen : List Uid) (d : Delivery ConnectorObject ρ) :
    (d.distinct ⟨seen, true⟩).finished = (d.finished, ⟨seenAfter seen d.passed, true⟩) := by
  induction d generalizing seen with
  | done r => rfl
  | pass o next ih =>
    unfold distinct
    by_cases h : o.uid ∈ seen
    · simp only [h, if_true, passed, finished, ih, seenAfter_cons]
    · simp only [h, if_false, passed, finished, ih, seenAfter_cons]

end Delivery

end Provisioning
