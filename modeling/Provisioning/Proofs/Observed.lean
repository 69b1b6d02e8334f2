import Provisioning.Proofs.Scan
import Provisioning.Request

/-! Observed connectors. What a connector is asked is noted beside its world when the connector is done with
it; the connector itself does not see the notes. -/

namespace Provisioning

inductive Ask where
  | checkAlive
  | dispose
  | create (c : ObjectClass) (attributes : AttributeSet) (options : Options)
  | delete (c : ObjectClass) (uid : Uid) (options : Options)
  | update (c : ObjectClass) (attributes : AttributeSet) (options : Options)
  | replaceValues (c : ObjectClass) (attributes : AttributeSet) (options : Options)
  | addValues (c : ObjectClass) (attributes : AttributeSet) (options : Options)
  | removeValues (c : ObjectClass) (attributes : AttributeSet) (options : Options)
  | search (c : ObjectClass) (filter? : Option Filter) (options : Options)
  | changes (c : ObjectClass) (token? : Option SyncToken) (options : Options)
  | latestToken (c : ObjectClass)
  | authenticate (c : ObjectClass) (username : String) (password : Secret) (options : Options)
  | resolveUsername (c : ObjectClass) (username : String) (options : Options)
  | schema
  | test
  | scriptOnConnector (script : Script) (options : Options)
  | scriptOnResource (script : Script) (options : Options)

namespace Call

variable {World Notes α β : Type}

theorem get_apply (w : World) : (get : Call World World) w = (.ok w, w) := rfl

theorem bind_apply (call : Call World α) (k : α → Call World β) (w : World) :
    (call >>= k) w =
      match call w with
      | (.ok a, w) => k a w
      | (.error b, w) => (.error b, w) := by
  change (StateT.bind call (ExceptT.bindCont k)) w = _
  unfold StateT.bind
  rcases call w with ⟨outcome, w'⟩
  cases outcome <;> rfl

theorem bind_pure_apply (call : Call World α) (f : α → β) (w : World) :
    (call >>= fun a => pure (f a)) w = ((call w).1.map f, (call w).2) := by
  rw [bind_apply]
  rcases call w with ⟨_ | a, w'⟩ <;> rfl

def noted (note : Notes → Notes) (call : Call World α) : Call (World × Notes) α := fun (w, notes) =>
  let (outcome, w) := call w
  (outcome, w, note notes)

def ended (notes : Notes) (result : Outcome α × World) : Outcome α × World × Notes :=
  (result.1, result.2, notes)

end Call

theorem Hosted.ability_apply {World α : Type} (h : Hosted World) (o : Operation) (ability? : World → Option α)
    (w : World) :
    h.ability o ability? w = ((ability? w).elim (.error (.failed (h.unsupported o))) .ok, w) := by
  unfold ability
  rw [Call.bind_apply, Call.get_apply]
  dsimp only
  cases ability? w with
  | none => rfl
  | some a => rfl

/-- The same connector, but for each thing it is asked something is noted. -/
def Connector.observed {World Notes : Type} (note : Ask → Notes → Notes) (connector : Connector World) :
    Connector (World × Notes) where
  checkAlive := connector.checkAlive.noted (note .checkAlive)
  dispose w :=
    let (result, world) := connector.dispose w.1
    (result, world, note .dispose w.2)
  normalizer? w := connector.normalizer? w.1
  create? w := (connector.create? w.1).map fun create c attributes options =>
    (create c attributes options).noted (note (.create c attributes options))
  delete? w := (connector.delete? w.1).map fun delete c uid options =>
    (delete c uid options).noted (note (.delete c uid options))
  update? w := (connector.update? w.1).map fun update c attributes options =>
    (update c attributes options).noted (note (.update c attributes options))
  updateValues? w := (connector.updateValues? w.1).map fun updater =>
    { replace := fun c attributes options =>
        (updater.replace c attributes options).noted (note (.replaceValues c attributes options))
      add := fun c attributes options =>
        (updater.add c attributes options).noted (note (.addValues c attributes options))
      remove := fun c attributes options =>
        (updater.remove c attributes options).noted (note (.removeValues c attributes options)) }
  search? w := (connector.search? w.1).map fun search c filter? options w =>
    (search c filter? options w.1).mapResult (Call.ended (note (.search c filter? options) w.2))
  sync? w := (connector.sync? w.1).map fun source =>
    { changes := fun c token? options w =>
        (source.changes c token? options w.1).mapResult (Call.ended (note (.changes c token? options) w.2))
      latestToken := fun c => (source.latestToken c).noted (note (.latestToken c)) }
  authenticate? w := (connector.authenticate? w.1).map fun authenticate c username password options =>
    (authenticate c username password options).noted (note (.authenticate c username password options))
  resolveUsername? w := (connector.resolveUsername? w.1).map fun resolve c username options =>
    (resolve c username options).noted (note (.resolveUsername c username options))
  schema? w := (connector.schema? w.1).map fun schema => schema.noted (note .schema)
  test? w := (connector.test? w.1).map fun test => test.noted (note .test)
  scriptOnConnector? w := (connector.scriptOnConnector? w.1).map fun run script options =>
    (run script options).noted (note (.scriptOnConnector script options))
  scriptOnResource? w := (connector.scriptOnResource? w.1).map fun run script options =>
    (run script options).noted (note (.scriptOnResource script options))

namespace Hosted

variable {World Notes : Type} {h : Hosted World} {w : World}

def observed (h : Hosted World) (note : Ask → Notes → Notes) : Hosted (World × Notes) :=
  ⟨h.key, h.connector.observed note⟩

theorem mapResult_refine {ρ τ : Type} (f : ρ → τ) (n : Normalization) (filter? : Option Filter)
    (options : Options) (d : Delivery ConnectorObject ρ) :
    (refine n filter? options d).mapResult f = refine n filter? options (d.mapResult f) := by
  rw [refine_eq, refine_eq, Delivery.mapResult_mapItems, Delivery.mapResult_filterItems]

/-- One search of the caller is one search of the connector, with options that ask for what the filter reads. -/
theorem search_observed (hsearch : (h.connector.search? w).isSome) (note : Ask → Notes → Notes) (c : ObjectClass)
    (filter? : Option Filter) (options : Options) (notes : Notes) :
    let normalFilter? := filter?.map (h.normalFilter c w)
    (h.observed note).search c filter? options (w, notes) =
      (h.search c filter? options w).mapResult
        (Call.ended (note (.search c normalFilter? (options.coveringFilter normalFilter?)) notes)) := by
  obtain ⟨searcher, hs⟩ := Option.isSome_iff_exists.1 hsearch
  have hs' : (h.observed note).connector.search? (w, notes) = some fun c filter? options w =>
      (searcher c filter? options w.1).mapResult (Call.ended (note (.search c filter? options) w.2)) := by
    change (h.connector.search? w).map _ = _
    rw [hs]
    rfl
  simp only [search, hs', hs, mapResult_refine, onFilter_normalization]
  rfl

end Hosted

end Provisioning
