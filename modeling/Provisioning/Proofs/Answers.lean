import Provisioning.Proofs.Stages

/-! Answers. Two records of one delivery: the source's, of all it passes with what it is told, and the handler's,
of all it is handed with what it says. -/

namespace Provisioning

variable {α β ρ σ : Type}

/-- Does what another handler does, and keeps all it is handed, each item with the answer to it. -/
def Handler.answering (handler : Handler α σ) : Handler α (σ × List (α × Bool)) := fun a (s, kept) =>
  let (go, s) := handler a s
  (go, s, kept ++ [(a, go)])

namespace Delivery

/-- The same delivery, but its result tells what was passed as well, each item with the answer to it, after
what was passed earlier. -/
def answered (earlier : List (α × Bool)) : Delivery α ρ → Delivery α (ρ × List (α × Bool))
  | done r => done (r, earlier)
  | pass a next => pass a fun go => answered (earlier ++ [(a, go)]) (next go)

theorem mapResult_answered (earlier : List (α × Bool)) (d : Delivery α ρ) :
    (d.answered earlier).mapResult Prod.fst = d := by
  induction d generalizing earlier with
  | done r => rfl
  | pass a next ih => simp only [answered, mapResult, ih]

theorem run_pass (a : α) (next : Bool → Delivery α ρ) (handler : Handler α σ) (s : σ) :
    ((pass a next).run handler).run s =
      ((next ((handler a).run s).1).run handler).run ((handler a).run s).2 := rfl

theorem run_answering (handler : Handler α σ) (d : Delivery α ρ) (s : σ) (kept : List (α × Bool)) :
    (d.run handler).run s =
      let ended := (d.run handler.answering).run (s, kept)
      (ended.1, ended.2.1) := by
  induction d generalizing s kept with
  | done r => rfl
  | pass a next ih => exact ih _ _ _

theorem run_answered_mapItems (f : α → β) (handler : Handler β σ) (d : Delivery α ρ)
    (earlier : List (α × Bool)) (s : σ) :
    ∃ r answers s', (((d.answered earlier).mapItems f).run handler.answering).run
        (s, earlier.map (Prod.map f id)) = ((r, answers), s', answers.map (Prod.map f id)) := by
  induction d generalizing earlier s with
  | done r => exact ⟨r, earlier, s, rfl⟩
  | pass a next ih =>
    obtain ⟨r, answers, s', h⟩ :=
      ih ((handler (f a)).run s).1 (earlier ++ [(a, ((handler (f a)).run s).1)]) ((handler (f a)).run s).2
    rw [List.map_append] at h
    exact ⟨r, answers, s', h⟩

end Delivery

end Provisioning
