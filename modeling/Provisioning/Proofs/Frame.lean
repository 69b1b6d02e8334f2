import Provisioning.Proofs.Observed

/-! What connectors leave alone. A connector that is observed only for its end leaves the notes alone, whatever else
it is asked. -/

namespace Provisioning

/-- However it goes on, a delivery ends with such a result. -/
def Delivery.EndsIn {α ρ : Type} (P : ρ → Prop) : Delivery α ρ → Prop
  | done r => P r
  | pass _ next => ∀ go, (next go).EndsIn P

namespace Delivery

variable {α β ρ τ σ : Type} {P : ρ → Prop}

theorem EndsIn.mapItems {d : Delivery α ρ} (hd : d.EndsIn P) (f : α → β) : (d.mapItems f).EndsIn P := by
  induction d with
  | done r => exact hd
  | pass a next ih => exact fun go => ih go (hd go)

theorem EndsIn.filterItems {d : Delivery α ρ} (hd : d.EndsIn P) (p : α → Bool) : (d.filterItems p).EndsIn P := by
  induction d with
  | done r => exact hd
  | pass a next ih =>
    unfold Delivery.filterItems
    split
    · exact fun go => ih go (hd go)
    · exact ih true (hd true)

theorem endsIn_untilStopped {r : ρ} (hr : P r) (l : List α) : (untilStopped r l).EndsIn P := by
  induction l with
  | nil => exact hr
  | cons a rest ih =>
    intro go
    cases go with
    | true => exact ih
    | false => exact hr

theorem endsIn_mapResult {f : τ → ρ} (hf : ∀ r, P (f r)) (d : Delivery α τ) : (d.mapResult f).EndsIn P := by
  induction d with
  | done r => exact hf r
  | pass a next ih => exact ih

theorem EndsIn.mono {Q : ρ → Prop} {d : Delivery α ρ} (hd : d.EndsIn P) (hPQ : ∀ r, P r → Q r) : d.EndsIn Q := by
  induction d with
  | done r => exact hPQ r hd
  | pass a next ih => exact fun go => ih go (hd go)

theorem EndsIn.andThen {Q : τ → Prop} {d : Delivery α ρ} {k : ρ → Delivery α τ} (hd : d.EndsIn P)
    (hk : ∀ r, P r → (k r).EndsIn Q) : (d.andThen k).EndsIn Q := by
  induction d with
  | done r => exact hk r hd
  | pass a next ih => exact fun go => ih go (hd go)

theorem EndsIn.distinct {d : Delivery ConnectorObject ρ} (hd : d.EndsIn P) (memory : Distinct) :
    (d.distinct memory).EndsIn fun ended => P ended.1 := by
  induction d generalizing memory with
  | done r => exact hd
  | pass o next ih =>
    unfold Delivery.distinct
    split
    · exact ih true (hd true) memory
    · exact fun go => ih go (hd go) _

theorem EndsIn.finished {d : Delivery α ρ} (hd : d.EndsIn P) : P d.finished := by
  induction d with
  | done r => exact hd
  | pass a next ih => exact ih true (hd true)

theorem EndsIn.run {d : Delivery α ρ} (hd : d.EndsIn P) (handler : Handler α σ) (s : σ) :
    P ((d.run handler).run s).1 := by
  induction d generalizing s with
  | done r => exact hd
  | pass a next ih => exact ih _ (hd _) _

end Delivery

variable {World View α : Type}

def Call.Leaves (view : World → View) (call : Call World α) : Prop := ∀ w, view (call w).2 = view w

theorem Call.leaves_noted {Notes : Type} {note : Notes → Notes} (hn : ∀ notes, note notes = notes)
    (call : Call World α) : (call.noted note).Leaves Prod.snd := fun w => hn w.2

/-- The abilities leave alone what can be seen of the world; to give up the connector need not. -/
structure Connector.Leaves (view : World → View) (connector : Connector World) : Prop where
  checkAlive : connector.checkAlive.Leaves view
  create : ∀ {w f}, connector.create? w = some f → ∀ c attributes options, (f c attributes options).Leaves view
  delete : ∀ {w f}, connector.delete? w = some f → ∀ c uid options, (f c uid options).Leaves view
  update : ∀ {w f}, connector.update? w = some f → ∀ c attributes options, (f c attributes options).Leaves view
  replaceValues : ∀ {w u}, connector.updateValues? w = some u → ∀ c attributes options,
    (u.replace c attributes options).Leaves view
  addValues : ∀ {w u}, connector.updateValues? w = some u → ∀ c attributes options,
    (u.add c attributes options).Leaves view
  removeValues : ∀ {w u}, connector.updateValues? w = some u → ∀ c attributes options,
    (u.remove c attributes options).Leaves view
  search : ∀ {w f}, connector.search? w = some f → ∀ c filter? options w',
    (f c filter? options w').EndsIn fun r => view r.2 = view w'
  changes : ∀ {w s}, connector.sync? w = some s → ∀ c token? options w',
    (s.changes c token? options w').EndsIn fun r => view r.2 = view w'
  latestToken : ∀ {w s}, connector.sync? w = some s → ∀ c, (s.latestToken c).Leaves view
  authenticate : ∀ {w f}, connector.authenticate? w = some f → ∀ c username password options,
    (f c username password options).Leaves view
  resolveUsername : ∀ {w f}, connector.resolveUsername? w = some f → ∀ c username options,
    (f c username options).Leaves view
  schema : ∀ {w f}, connector.schema? w = some f → f.Leaves view
  test : ∀ {w f}, connector.test? w = some f → f.Leaves view
  scriptOnConnector : ∀ {w f}, connector.scriptOnConnector? w = some f → ∀ script options,
    (f script options).Leaves view
  scriptOnResource : ∀ {w f}, connector.scriptOnResource? w = some f → ∀ script options,
    (f script options).Leaves view

theorem Connector.leaves_observed {Notes : Type} {note : Ask → Notes → Notes}
    (hn : ∀ ask, ask ≠ .dispose → ∀ notes, note ask notes = notes) (connector : Connector World) :
    (connector.observed note).Leaves Prod.snd := by
  have noted {α : Type} (ask : Ask) (ha : ask ≠ .dispose) (call : Call World α) :
      (call.noted (note ask)).Leaves Prod.snd := Call.leaves_noted (hn ask ha) call
  have ended {α ι : Type} (ask : Ask) (ha : ask ≠ .dispose) (notes : Notes)
      (d : Delivery ι (Outcome α × World)) :
      (d.mapResult (Call.ended (note ask notes))).EndsIn fun r => r.2.2 = notes :=
    Delivery.endsIn_mapResult (f := Call.ended (note ask notes)) (fun _ => hn ask ha notes) d
  refine ⟨noted .checkAlive (by simp) _, ?_, ?_, ?_, ?_, ?_, ?_, ?_, ?_, ?_, ?_, ?_, ?_, ?_, ?_, ?_⟩
  all_goals
    intro w f hf
    obtain ⟨f, -, rfl⟩ := Option.map_eq_some_iff.1 hf
  · exact fun c attributes options => noted (.create c attributes options) (by simp) _
  · exact fun c uid options => noted (.delete c uid options) (by simp) _
  · exact fun c attributes options => noted (.update c attributes options) (by simp) _
  · exact fun c attributes options => noted (.replaceValues c attributes options) (by simp) _
  · exact fun c attributes options => noted (.addValues c attributes options) (by simp) _
  · exact fun c attributes options => noted (.removeValues c attributes options) (by simp) _
  · exact fun c filter? options w' => ended (.search c filter? options) (by simp) w'.2 _
  · exact fun c token? options w' => ended (.changes c token? options) (by simp) w'.2 _
  · exact fun c => noted (.latestToken c) (by simp) _
  · exact fun c username password options => noted (.authenticate c username password options) (by simp) _
  · exact fun c username options => noted (.resolveUsername c username options) (by simp) _
  · exact noted .schema (by simp) _
  · exact noted .test (by simp) _
  · exact fun script options => noted (.scriptOnConnector script options) (by simp) _
  · exact fun script options => noted (.scriptOnResource script options) (by simp) _

theorem Hosted.eq_some_of_ability {h : Hosted World} {o : Operation} {ability? : World → Option α} {w : World}
    {a : α} (ha : (h.ability o ability? w).1 = .ok a) : ability? w = some a := by
  rw [ability_apply] at ha
  cases hw : ability? w with
  | none => rw [hw] at ha; cases ha
  | some a' => rw [hw] at ha; cases ha; rfl

end Provisioning
