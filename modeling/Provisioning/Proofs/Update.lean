import Provisioning.Proofs.Observed

/-! Updates of connectors that can only replace whole attributes: the object is fetched, the request merged
with it, and the result written. `update_fetches_merges_writes` says when the one write happens and what is
written; whatever fails before leaves the object as it was. -/

namespace Provisioning

def Ask.isUpdate : Ask → Bool
  | update _ _ _ => true
  | _ => false

theorem Delivery.run_keepLast {ρ : Type} (d : Delivery ConnectorObject ρ) (kept : List ConnectorObject) :
    (d.run Hosted.keepLast).run kept.getLast? =
      let ended := (d.run (.keep fun _ => false)).run kept
      (ended.1, ended.2.getLast?) := by
  induction d generalizing kept with
  | done r => rfl
  | pass o next ih =>
    have hkept := ih false (kept ++ [o])
    rw [List.getLast?_append, List.getLast?_singleton, Option.some_or] at hkept
    exact hkept

namespace Hosted

variable {World Notes : Type} {h : Hosted World}

theorem get_eq (h : Hosted World) (c : ObjectClass) (uid : Uid) (options : Options) (w : World) :
    h.get c uid options w =
      let ended := ((h.search c (some (.leaf .equals uid.toAttribute)) options w).run (.keep fun _ => false)).run []
      (ended.1.1.map fun _ => ended.2.getLast?, ended.1.2) := by
  unfold get
  rw [show (none : Option ConnectorObject) = ([] : List ConnectorObject).getLast? from rfl, Delivery.run_keepLast]

/-- The search that reads an object asks the connector for all of its attributes. -/
theorem get_observed {w : World} (hsearch : (h.connector.search? w).isSome) (note : Ask → Notes → Notes)
    (c : ObjectClass) (uid : Uid) (options : Options) (notes : Notes) :
    (h.observed note).get c uid options.withoutAttributesToGet (w, notes) =
      Call.ended (note (.search c (some (h.normalFilter c w (.leaf .equals uid.toAttribute)))
        options.withoutAttributesToGet) notes) (h.get c uid options.withoutAttributesToGet w) := by
  have hasked (filter? : Option Filter) :
      options.withoutAttributesToGet.coveringFilter filter? = options.withoutAttributesToGet :=
    Options.coveringFilter_of_unrestricted rfl filter?
  rw [get_eq, get_eq, search_observed hsearch, Delivery.run_mapResult, hasked]
  rfl

/-- A connector that can replace whole attributes only. -/
structure ReplacesOnly (h : Hosted World) : Prop where
  updates : ∀ w, (h.connector.update? w).isSome
  searches : ∀ w, (h.connector.search? w).isSome
  changes_no_values : ∀ w, h.connector.updateValues? w = none

theorem ReplacesOnly.observed (hr : h.ReplacesOnly) (note : Ask → Notes → Notes) :
    (h.observed note).ReplacesOnly where
  updates w := by
    change ((h.connector.update? w.1).map _).isSome = true
    rw [Option.isSome_map]
    exact hr.updates w.1
  searches w := by
    change ((h.connector.search? w.1).map _).isSome = true
    rw [Option.isSome_map]
    exact hr.searches w.1
  changes_no_values w := by
    change (h.connector.updateValues? w.1).map _ = none
    rw [hr.changes_no_values w.1]
    rfl

theorem update_of_invalid {kind : UpdateKind} {attributes : List Attribute} {failure : Failure}
    (hv : kind.validateRequest attributes = .error failure) (c : ObjectClass) (options : Options) (w : World) :
    h.update kind c attributes options w = (.error (.failed failure), w) := by
  unfold update
  rw [hv]
  rfl

theorem update_without_updater {kind : UpdateKind} {attributes : List Attribute} {valid : AttributeSet} {w : World}
    (hv : kind.validateRequest attributes = .ok valid) (hu : h.connector.updateValues? w = none)
    (c : ObjectClass) (options : Options) :
    h.update kind c attributes options w =
      (h.ability .update h.connector.update? >>= fun _ =>
        h.mergeWithCurrent kind c (h.normalSet c w valid) options >>= fun merged => do
          let update ← h.ability .update h.connector.update?
          return h.normalUid c w (← update c merged options)) w := by
  unfold Hosted.update
  rw [hv, Call.bind_apply]
  change (((MonadState.get : Call World World) >>= _) w) = _
  rw [Call.bind_apply, Call.get_apply]
  change (((MonadState.get : Call World World) >>= _) w) = _
  rw [Call.bind_apply, Call.get_apply]
  dsimp only
  rw [hu]
  rfl

/-- A valid request is merged with the object as it is, and what comes of that is written. -/
theorem ReplacesOnly.update_of_valid (hr : h.ReplacesOnly) {kind : UpdateKind} {attributes : List Attribute}
    {valid : AttributeSet} (hv : kind.validateRequest attributes = .ok valid) (c : ObjectClass)
    (options : Options) (w : World) :
    h.update kind c attributes options w =
      (h.mergeWithCurrent kind c (h.normalSet c w valid) options >>= fun merged => do
        let update ← h.ability .update h.connector.update?
        return h.normalUid c w (← update c merged options)) w := by
  obtain ⟨update, hu⟩ := Option.isSome_iff_exists.1 (hr.updates w)
  rw [update_without_updater hv (hr.changes_no_values w), Call.bind_apply, ability_apply, hu]
  rfl

theorem ReplacesOnly.update_of_unmerged (hr : h.ReplacesOnly) {kind : UpdateKind} {attributes : List Attribute}
    {valid : AttributeSet} (hv : kind.validateRequest attributes = .ok valid) {c : ObjectClass}
    {options : Options} {w w' : World} {b : Breakdown}
    (hm : h.mergeWithCurrent kind c (h.normalSet c w valid) options w = (.error b, w')) :
    h.update kind c attributes options w = (.error b, w') := by
  rw [hr.update_of_valid hv, Call.bind_apply, hm]

theorem ReplacesOnly.update_of_merged (hr : h.ReplacesOnly) {kind : UpdateKind} {attributes : List Attribute}
    {valid : AttributeSet} (hv : kind.validateRequest attributes = .ok valid) {c : ObjectClass}
    {options : Options} {w w' : World} {merged : AttributeSet}
    {update : ObjectClass → AttributeSet → Options → Call World Uid}
    (hm : h.mergeWithCurrent kind c (h.normalSet c w valid) options w = (.ok merged, w'))
    (hu : h.connector.update? w' = some update) :
    h.update kind c attributes options w =
      ((update c merged options w').1.map (h.normalUid c w), (update c merged options w').2) := by
  rw [hr.update_of_valid hv, Call.bind_apply, hm]
  change (h.ability .update h.connector.update? >>= _) w' = _
  rw [Call.bind_apply, ability_apply, hu]
  exact Call.bind_pure_apply (update c merged options) _ w'

theorem mergeWithCurrent_of_unnamed {kind : UpdateKind} {request : AttributeSet} (hu : request.uid? = none)
    (c : ObjectClass) (options : Options) (w : World) :
    h.mergeWithCurrent kind c request options w = (.error (.failed (.invalidArgument .updateWithoutUid)), w) := by
  unfold mergeWithCurrent
  rw [hu]
  rfl

def mergedWith (kind : UpdateKind) (c : ObjectClass) (uid : Uid) (request : AttributeSet) :
    Outcome (Option ConnectorObject) × World → Outcome AttributeSet × World
  | (.ok (some current), w) => (.ok (merge kind request current.attributes), w)
  | (.ok none, w) => (.error (.failed (.unknownUid c.name uid.value)), w)
  | (.error b, w) => (.error b, w)

theorem mergeWithCurrent_of_named {kind : UpdateKind} {request : AttributeSet} {uid : Uid} {options : Options}
    (hu : request.uid? = some uid) (c : ObjectClass) (w : World) :
    h.mergeWithCurrent kind c request options w =
      mergedWith kind c uid request (h.get c uid options.withoutAttributesToGet w) := by
  unfold mergeWithCurrent
  rw [hu]
  change (h.get c uid options.withoutAttributesToGet >>= _) w = _
  rw [Call.bind_apply]
  rcases h.get c uid options.withoutAttributesToGet w with ⟨_ | _ | current, w'⟩ <;> rfl

/-- The normal form of the valid request names an object, and this one is the last that the search for it delivers. -/
structure Fetches (h : Hosted World) (kind : UpdateKind) (c : ObjectClass) (attributes : List Attribute)
    (options : Options) (w : World) (request : AttributeSet) (uid : Uid) (w' : World)
    (found? : Option ConnectorObject) : Prop where
  valid : ∃ valid, kind.validateRequest attributes = .ok valid ∧ request = h.normalSet c w valid
  named : request.uid? = some uid
  found : ∃ result delivered,
    ((h.search c (some (.leaf .equals uid.toAttribute)) options.withoutAttributesToGet w).run
      (.keep fun _ => false)).run [] = ((.ok result, w'), delivered) ∧ delivered.getLast? = found?

section Fetches

variable {kind : UpdateKind} {c : ObjectClass} {attributes : List Attribute} {options : Options} {w w' : World}
  {request : AttributeSet} {uid : Uid} {found? : Option ConnectorObject} {valid : AttributeSet}

theorem Fetches.get_eq (hf : h.Fetches kind c attributes options w request uid w' found?) :
    h.get c uid options.withoutAttributesToGet w = (.ok found?, w') := by
  obtain ⟨result, delivered, hrun, hlast⟩ := hf.found
  rw [Hosted.get_eq, hrun, ← hlast]
  rfl

theorem fetches_of_get_eq (hv : kind.validateRequest attributes = .ok valid)
    (hu : (h.normalSet c w valid).uid? = some uid)
    (hg : h.get c uid options.withoutAttributesToGet w = (.ok found?, w')) :
    h.Fetches kind c attributes options w (h.normalSet c w valid) uid w' found? := by
  refine ⟨⟨valid, hv, rfl⟩, hu, ?_⟩
  rw [get_eq] at hg
  generalize ((h.search c (some (.leaf .equals uid.toAttribute)) options.withoutAttributesToGet w).run
    (.keep fun _ => false)).run [] = ended at hg ⊢
  obtain ⟨⟨outcome, w''⟩, delivered⟩ := ended
  cases outcome with
  | error b => cases hg
  | ok result =>
    cases hg
    exact ⟨result, delivered, rfl, rfl⟩

def fetchOf (h : Hosted World) (c : ObjectClass) (uid : Uid) (options : Options) (w : World) : Ask :=
  .search c (some (h.normalFilter c w (.leaf .equals uid.toAttribute))) options.withoutAttributesToGet

def listed (h : Hosted World) : Hosted (World × List Ask) := h.observed fun ask asked => asked ++ [ask]

theorem ReplacesOnly.listed (hr : h.ReplacesOnly) : h.listed.ReplacesOnly := hr.observed _

theorem listed_mergeWithCurrent (hr : h.ReplacesOnly) (hu : request.uid? = some uid) (kind : UpdateKind)
    (c : ObjectClass) (options : Options) (w : World) :
    h.listed.mergeWithCurrent kind c request options (w, []) =
      Call.ended [h.fetchOf c uid options w]
        (mergedWith kind c uid request (h.get c uid options.withoutAttributesToGet w)) := by
  rw [mergeWithCurrent_of_named hu, listed, get_observed (hr.searches w)]
  rcases h.get c uid options.withoutAttributesToGet w with ⟨_ | _ | current, w'⟩ <;> rfl

theorem Fetches.update_missing (hr : h.ReplacesOnly)
    (hf : h.Fetches kind c attributes options w request uid w' none) :
    h.listed.update kind c attributes options (w, []) =
      (.error (.failed (.unknownUid c.name uid.value)), w', [h.fetchOf c uid options w]) := by
  obtain ⟨valid, hv, rfl⟩ := hf.valid
  have hm := listed_mergeWithCurrent hr hf.named kind c options w
  rw [hf.get_eq] at hm
  exact hr.listed.update_of_unmerged hv hm

theorem Fetches.update_found (hr : h.ReplacesOnly) {current : ConnectorObject}
    (hf : h.Fetches kind c attributes options w request uid w' (some current)) :
    ∃ update, h.connector.update? w' = some update ∧
      let merged := merge kind request current.attributes
      h.listed.update kind c attributes options (w, []) =
        Call.ended [h.fetchOf c uid options w, .update c merged options]
          ((update c merged options w').1.map (h.normalUid c w), (update c merged options w').2) := by
  obtain ⟨valid, hv, rfl⟩ := hf.valid
  obtain ⟨update, hu⟩ := Option.isSome_iff_exists.1 (hr.updates w')
  have hu' : h.listed.connector.update? (w', [h.fetchOf c uid options w]) =
      some fun c attributes options => (update c attributes options).noted
        (· ++ [.update c attributes options]) := by
    change (h.connector.update? w').map _ = _
    rw [hu]
    rfl
  have hm := listed_mergeWithCurrent hr hf.named kind c options w
  rw [hf.get_eq] at hm
  exact ⟨update, hu, hr.listed.update_of_merged hv hm hu'⟩

theorem update_of_unfetched (hr : h.ReplacesOnly)
    (hf : ∀ request uid w' found?, ¬ h.Fetches kind c attributes options w request uid w' found?) :
    ∃ b w' asked, h.listed.update kind c attributes options (w, []) = (.error b, w', asked) ∧
      asked.filter Ask.isUpdate = [] := by
  cases hv : kind.validateRequest attributes with
  | error failure => exact ⟨_, _, _, update_of_invalid hv c options (w, []), rfl⟩
  | ok valid =>
    cases hu : (h.normalSet c w valid).uid? with
    | none =>
      exact ⟨_, _, _, hr.listed.update_of_unmerged hv (mergeWithCurrent_of_unnamed hu c options (w, [])), rfl⟩
    | some uid =>
      have hm := listed_mergeWithCurrent hr hu kind c options w
      cases hg : h.get c uid options.withoutAttributesToGet w with
      | mk outcome w' =>
        cases outcome with
        | ok found? => exact absurd (fetches_of_get_eq hv hu hg) (hf _ _ _ _)
        | error b =>
          rw [hg] at hm
          exact ⟨b, w', _, hr.listed.update_of_unmerged hv hm, rfl⟩

/-- Either the object is found and written, or there is no write and the update fails. -/
theorem update_writes_or_fails (hr : h.ReplacesOnly) (kind : UpdateKind) (c : ObjectClass)
    (attributes : List Attribute) (options : Options) (w : World) :
    let ended := h.listed.update kind c attributes options (w, [])
    let writes := ended.2.2.filter Ask.isUpdate
    (∃ request uid w' current, h.Fetches kind c attributes options w request uid w' (some current) ∧
        writes = [.update c (merge kind request current.attributes) options]) ∨
      (∀ request uid w' current, ¬ h.Fetches kind c attributes options w request uid w' (some current)) ∧
        writes = [] ∧ ∃ b, ended.1 = .error b := by
  intro ended writes
  by_cases hsome : ∃ request uid w' current, h.Fetches kind c attributes options w request uid w' (some current)
  · obtain ⟨request, uid, w', current, hf⟩ := hsome
    obtain ⟨_, _, hended⟩ := hf.update_found hr
    exact .inl ⟨request, uid, w', current, hf, congrArg (·.2.2.filter Ask.isUpdate) hended⟩
  · refine .inr ⟨fun request uid w' current hf => hsome ⟨request, uid, w', current, hf⟩, ?_⟩
    by_cases hnone : ∃ request uid w', h.Fetches kind c attributes options w request uid w' none
    · obtain ⟨request, uid, w', hf⟩ := hnone
      have hended := hf.update_missing hr
      exact ⟨congrArg (·.2.2.filter Ask.isUpdate) hended, _, congrArg (·.1) hended⟩
    · have hf : ∀ request uid w' found?, ¬ h.Fetches kind c attributes options w request uid w' found? := by
        intro request uid w' found? hf
        cases found? with
        | none => exact hnone ⟨request, uid, w', hf⟩
        | some current => exact hsome ⟨request, uid, w', current, hf⟩
      obtain ⟨b, w', asked, hended, hw⟩ := update_of_unfetched hr hf
      exact ⟨(congrArg (·.2.2.filter Ask.isUpdate) hended).trans hw, b, congrArg (·.1) hended⟩

/-- A connector that replaces whole attributes is asked to update at most once: exactly if the object could be
fetched, and then with the request merged into it, whatever attributes the caller wants to get. -/
theorem update_fetches_merges_writes (hr : h.ReplacesOnly) (kind : UpdateKind) (c : ObjectClass)
    (attributes : List Attribute) (options : Options) (w : World) :
    let ended := h.listed.update kind c attributes options (w, [])
    let asked := ended.2.2
    let writes := asked.filter Ask.isUpdate
    writes.length ≤ 1 ∧
    (writes ≠ [] ↔ ∃ request uid w' current,
      h.Fetches kind c attributes options w request uid w' (some current)) ∧
    (∀ request uid w' current, h.Fetches kind c attributes options w request uid w' (some current) →
      ∃ update, h.connector.update? w' = some update ∧
        let merged := merge kind request current.attributes
        asked = [h.fetchOf c uid options w, .update c merged options] ∧
        ended.1 = (update c merged options w').1.map (h.normalUid c w)) ∧
    (writes = [] → ∃ b, ended.1 = .error b) ∧
    ∀ request uid w', h.Fetches kind c attributes options w request uid w' none →
      asked = [h.fetchOf c uid options w] ∧
      ended.1 = .error (.failed (.unknownUid c.name uid.value)) := by
  intro ended asked writes
  have hcases := update_writes_or_fails hr kind c attributes options w
  refine ⟨?_, ?_, fun request uid w' current hf => ?_, ?_, fun request uid w' hf => ?_⟩
  · rcases hcases with ⟨_, _, _, _, _, hw⟩ | ⟨_, hw, _⟩
    · exact Nat.le_of_eq (congrArg List.length hw)
    · exact Nat.le_trans (Nat.le_of_eq (congrArg List.length hw)) (Nat.zero_le 1)
  · rcases hcases with ⟨request, uid, w', current, hf, hw⟩ | ⟨hno, hw, _⟩
    · exact ⟨fun _ => ⟨request, uid, w', current, hf⟩,
        fun _ hnil => absurd (hw.symm.trans hnil) (List.cons_ne_nil _ _)⟩
    · exact ⟨fun hne => absurd hw hne, fun ⟨request, uid, w', current, hf⟩ => absurd hf (hno _ _ _ _)⟩
  · obtain ⟨update, hu, hended⟩ := hf.update_found hr
    exact ⟨update, hu, congrArg (·.2.2) hended, congrArg (·.1) hended⟩
  · rcases hcases with ⟨_, _, _, _, _, hw⟩ | ⟨_, _, hb⟩
    · exact fun hnil => absurd (hw.symm.trans hnil) (List.cons_ne_nil _ _)
    · exact fun _ => hb
  · have hended := hf.update_missing hr
    exact ⟨congrArg (·.2.2) hended, congrArg (·.1) hended⟩

end Fetches

def oneAccount : Hosted Unit :=
  ⟨default, { Connector.bare with
    search? := fun _ => some fun _ _ _ w => .untilStopped (.ok {}, w)
      [⟨.account, ⟨"u1"⟩, .ofList [(Uid.mk "u1").toAttribute, .single "mail" (.string "ann@x"),
        .single "team" (.string "red")]⟩]
    update? := fun _ => some fun _ _ _ => pure ⟨"u1"⟩ }⟩

/-- The mail address is written back although only the team is wanted. -/
theorem update_fetches_merges_writes_team :
    let attributes : List Attribute := [(Uid.mk "u1").toAttribute, .single "team" (.string "blue")]
    let options : Options := { attributesToGet? := some ["team"] }
    let ended := oneAccount.listed.update .add .account attributes options ((), [])
    oneAccount.ReplacesOnly ∧ ended.1 = .ok ⟨"u1"⟩ ∧
    ended.2.2.filter Ask.isUpdate = [.update .account (.ofList [(Uid.mk "u1").toAttribute,
      .single "mail" (.string "ann@x"), .of "team" [.string "red", .string "blue"]]) options] := by
  intro attributes options ended
  have hr : oneAccount.ReplacesOnly := ⟨fun _ => rfl, fun _ => rfl, fun _ => rfl⟩
  obtain ⟨-, -, hfound, -⟩ := update_fetches_merges_writes hr .add .account attributes options ()
  have hf : oneAccount.Fetches .add .account attributes options () (.ofList attributes) ⟨"u1"⟩ ()
      (some ⟨.account, ⟨"u1"⟩, .ofList [(Uid.mk "u1").toAttribute, .single "mail" (.string "ann@x"),
        .single "team" (.string "red")]⟩) :=
    ⟨⟨_, rfl, rfl⟩, rfl, {}, _, rfl, rfl⟩
  obtain ⟨update, hu, hasked, hresult⟩ := hfound _ _ _ _ hf
  cases hu
  have hmerged : merge .add (.ofList attributes) (.ofList [(Uid.mk "u1").toAttribute,
      .single "mail" (.string "ann@x"), .single "team" (.string "red")]) = .ofList [(Uid.mk "u1").toAttribute,
        .single "mail" (.string "ann@x"), .of "team" [.string "red", .string "blue"]] := by decide +kernel
  refine ⟨hr, hresult, ?_⟩
  rw [hasked, hmerged]
  rfl

end Hosted

end Provisioning
