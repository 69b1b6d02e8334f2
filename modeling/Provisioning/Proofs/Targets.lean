import Provisioning.Normalizer.Rule
import Provisioning.Proofs.Checks
import Provisioning.Proofs.Frame
import Provisioning.Proofs.Lookups
import Provisioning.Proofs.Merge
import Provisioning.Proofs.Update

/-! Targets of updates. A request is checked before it is normalized, so a connector that is handed the
normalized request itself finds there what was checked only as far as the normalizer keeps it; a request that
is merged first names its object in any case: `update_names_target`. -/

namespace Provisioning

/-! What the checks of a request establish. -/

namespace AttributeSet

theorem mem_foldl_insert {a : Attribute} (l : List Attribute) (s : AttributeSet)
    (h : a ∈ (l.foldl insert s).entries) : a ∈ l ∨ a ∈ s.entries := by
  induction l generalizing s with
  | nil => exact .inr h
  | cons b rest ih =>
    rcases ih (s.insert b) h with h | h
    · exact .inl (List.mem_cons_of_mem _ h)
    · rcases mem_insertSorted h with rfl | h
      · exact .inl List.mem_cons_self
      · exact .inr h

theorem mem_map {a : Attribute} {s : AttributeSet} {f : Attribute → Attribute} (h : a ∈ (s.map f).entries) :
    ∃ b ∈ s.entries, f b = a := by
  rcases mem_foldl_insert _ _ h with h | h
  · exact List.mem_map.1 h
  · exact absurd h List.not_mem_nil

def PlainButUid (s : AttributeSet) : Prop :=
  ∀ a ∈ s.entries, a.isUid = false → a.isNull = false ∧ a.isSpecial = false

end AttributeSet

theorem UpdateKind.of_validateRequest {kind : UpdateKind} {attributes : List Attribute} {valid : AttributeSet}
    (h : kind.validateRequest attributes = .ok valid) :
    valid.uid?.isSome ∧ (kind ≠ .replace → valid.PlainButUid) :=
  (validateRequest_eq_ok_iff.1 h).2

/-! What normalization may keep of it. -/

/-- The Uid attribute stays the only one and stays readable, lists of values are not taken away, and ordinary
names stay ordinary. -/
structure Normalization.KeepsChecked (n : Normalization) : Prop where
  isUid : ∀ a, (n.onAttribute a).isUid = a.isUid
  holdsUid : ∀ a, a.isUid = true → a.uid?.isSome → (n.onAttribute a).uid?.isSome
  hasValues : ∀ a, a.isNull = false → (n.onAttribute a).isNull = false
  ordinary : ∀ a, a.isSpecial = false → (n.onAttribute a).isSpecial = false

namespace Normalization

variable {n : Normalization}

theorem mem_onSet {a : Attribute} {s : AttributeSet} (h : a ∈ (n.onSet s).entries) :
    ∃ b ∈ s.entries, n.onAttribute b = a := by
  obtain ⟨c, normalizer?⟩ := n
  cases normalizer? with
  | none => exact ⟨a, h, rfl⟩
  | some f => exact AttributeSet.mem_map h

theorem KeepsChecked.get?_uidName (hn : n.KeepsChecked) (s : AttributeSet) :
    (n.onSet s).get? uidName = (s.get? uidName).map n.onAttribute := by
  obtain ⟨c, normalizer?⟩ := n
  cases normalizer? with
  | none => exact Option.map_id'.symm
  | some f => exact AttributeSet.get?_map_of_isNamed hn.isUid s

theorem KeepsChecked.uid?_onSet (hn : n.KeepsChecked) {s : AttributeSet} (h : s.uid?.isSome) :
    (n.onSet s).uid?.isSome := by
  rw [AttributeSet.uid?] at h ⊢
  rw [hn.get?_uidName]
  cases hg : s.get? uidName with
  | none => rw [hg] at h; cases h
  | some a =>
    rw [hg] at h
    have ha : a.isUid = true := (AttributeSet.get?_eq_some_iff.1 hg).2
    exact hn.holdsUid a ha h

theorem KeepsChecked.plain_onSet (hn : n.KeepsChecked) {s : AttributeSet} (h : s.PlainButUid) :
    (n.onSet s).PlainButUid := by
  intro a ha huid
  obtain ⟨b, hb, rfl⟩ := mem_onSet ha
  obtain ⟨hnull, hspecial⟩ := h b hb (hn.isUid b ▸ huid)
  exact ⟨hn.hasValues b hnull, hn.ordinary b hspecial⟩

theorem keepsChecked_mapStrings (c : ObjectClass) (f : String → String) :
    KeepsChecked ⟨c, some fun _ a => a.mapStrings f⟩ where
  isUid _ := rfl
  holdsUid a _ h := by
    obtain ⟨name, values?⟩ := a
    rcases values? with _ | _ | ⟨v, _ | ⟨_, _⟩⟩
    · cases h
    · cases h
    · cases v <;> first | rfl | cases h
    · cases h
  hasValues a h := by
    obtain ⟨name, values?⟩ := a
    cases values? with
    | none => cases h
    | some vs => rfl
  ordinary _ h := h

end Normalization

/-- A set merged with what an object holds names the object that was requested. -/
theorem uid?_merge (kind : UpdateKind) (requested current : AttributeSet) :
    (merge kind requested current).uid? = requested.uid? := by
  rw [AttributeSet.uid?, AttributeSet.uid?, get?_merge, sameName_refl, if_pos rfl]

/-! What a call asks. -/

def Ask.written? : Ask → Option AttributeSet
  | update _ attributes _ => some attributes
  | replaceValues _ attributes _ => some attributes
  | addValues _ attributes _ => some attributes
  | removeValues _ attributes _ => some attributes
  | _ => none

def Ask.changesValues : Ask → Bool
  | addValues _ _ _ => true
  | removeValues _ _ _ => true
  | _ => false

/-- The connector is handed an object's name with what is written to it, and no single values. -/
def Ask.HandsNamed (ask : Ask) : Prop := (∀ s, ask.written? = some s → s.uid?.isSome) ∧ ask.changesValues = false

theorem Ask.handsNamed_of_unwritten {ask : Ask} (h : ask.written? = none) : ask.HandsNamed := by
  refine ⟨fun s hs => ?_, ?_⟩
  · rw [h] at hs
    cases hs
  · cases ask <;> first | rfl | cases h

variable {World α β : Type}

/-- Whatever the call asks of the connector is of one kind, and what it ends with is of another. -/
def Call.Asks (P : Ask → Prop) (Q : α → Prop) (call : Call (World × List Ask) α) : Prop :=
  ∀ w asked, (∀ ask ∈ (call (w, asked)).2.2, ask ∈ asked ∨ P ask) ∧ ∀ a, (call (w, asked)).1 = .ok a → Q a

namespace Call

variable {P : Ask → Prop} {Q : α → Prop} {R : β → Prop}

theorem asks_pure {a : α} (h : Q a) : Asks P Q (pure a : Call (World × List Ask) α) := by
  refine fun _ _ => ⟨fun _ hask => .inl hask, fun _ hb => ?_⟩
  cases hb
  exact h

theorem asks_fail (f : Failure) : Asks P Q (fail f : Call (World × List Ask) α) :=
  fun _ _ => ⟨fun _ hask => .inl hask, fun _ hb => nomatch hb⟩

theorem Asks.bind {call : Call (World × List Ask) α} {k : α → Call (World × List Ask) β} (hc : call.Asks P Q)
    (hk : ∀ a, Q a → (k a).Asks P R) : (call >>= k).Asks P R := by
  intro w asked
  obtain ⟨hasked, hended⟩ := hc w asked
  rw [bind_apply]
  cases hcall : call (w, asked) with
  | mk outcome s =>
    obtain ⟨w', asked'⟩ := s
    rw [hcall] at hasked hended
    cases outcome with
    | error b => exact ⟨hasked, fun a ha => nomatch ha⟩
    | ok a =>
      obtain ⟨hasked', hended'⟩ := hk a (hended a rfl) w' asked'
      refine ⟨fun ask hask => ?_, hended'⟩
      rcases hasked' ask hask with hask | hp
      · exact hasked ask hask
      · exact .inr hp

theorem asks_noted {ask : Ask} (h : P ask) (call : Call World α) :
    Asks P (fun _ => True) (call.noted (· ++ [ask])) := by
  refine fun w asked => ⟨fun other hother => ?_, fun _ _ => trivial⟩
  rcases List.mem_append.1 hother with hother | hother
  · exact .inl hother
  · exact .inr (List.mem_singleton.1 hother ▸ h)

theorem Asks.mono {P' : Ask → Prop} {call : Call (World × List Ask) α} (hc : call.Asks P Q)
    (hp : ∀ ask, P ask → P' ask) : call.Asks P' Q :=
  fun w asked => ⟨fun ask hask => ((hc w asked).1 ask hask).imp_right (hp ask), (hc w asked).2⟩

end Call

namespace Hosted

variable {h : Hosted World} {P : Ask → Prop} {R : β → Prop}

theorem asks_using {o : Operation} {ability? : World × List Ask → Option α} {k : α → Call (World × List Ask) β}
    (hk : ∀ w a, ability? w = some a → (k a).Asks P R) : (h.listed.ability o ability? >>= k).Asks P R := by
  refine Call.Asks.bind (Q := fun a => ∃ w, ability? w = some a) (fun w asked => ?_)
    fun a ⟨w, ha⟩ => hk w a ha
  rw [ability_apply]
  refine ⟨fun ask hask => .inl hask, fun a ha => ⟨(w, asked), ?_⟩⟩
  exact eq_some_of_ability (h := h.listed) (o := o) (by rw [ability_apply]; exact ha)

theorem asks_get (c : ObjectClass) (uid : Uid) (options : Options) :
    (h.listed.get c uid options).Asks (fun ask => ask.written? = none) fun _ => True := by
  refine fun w asked => ⟨?_, fun _ _ => trivial⟩
  have hended : (h.listed.search c (some (.leaf .equals uid.toAttribute)) options (w, asked)).EndsIn
      fun r => ∀ ask ∈ r.2.2, ask ∈ asked ∨ ask.written? = none := by
    cases hs : h.connector.search? w with
    | none =>
      have hs' : h.listed.connector.search? (w, asked) = none := by
        change (h.connector.search? w).map _ = none
        rw [hs]
        rfl
      rw [search, hs']
      exact fun ask hask => .inl hask
    | some searcher =>
      rw [listed, search_observed (by rw [hs]; rfl)]
      refine Delivery.endsIn_mapResult (fun r ask hask => ?_) _
      rcases List.mem_append.1 hask with hask | hask
      · exact .inl hask
      · exact .inr (List.mem_singleton.1 hask ▸ rfl)
  exact hended.run keepLast none

theorem asks_mergeWithCurrent (kind : UpdateKind) (c : ObjectClass) (request : AttributeSet) (options : Options) :
    (h.listed.mergeWithCurrent kind c request options).Asks (fun ask => ask.written? = none)
      fun merged => merged.uid?.isSome := by
  unfold mergeWithCurrent
  cases hu : request.uid? with
  | none => exact Call.asks_fail _
  | some uid =>
    refine (asks_get c uid _).bind fun found? _ => ?_
    cases found? with
    | none => exact Call.asks_fail _
    | some current =>
      refine Call.asks_pure ?_
      rw [uid?_merge, hu]
      rfl

def change (kind : UpdateKind) (updater : ValueUpdater World) :
    ObjectClass → AttributeSet → Options → Call World Uid :=
  match kind with
  | .add => updater.add
  | .delete => updater.remove
  | .replace => updater.replace

theorem update_of_updater {kind : UpdateKind} {attributes : List Attribute} {valid : AttributeSet} {w : World}
    {updater : ValueUpdater World} (hv : kind.validateRequest attributes = .ok valid)
    (hu : h.connector.updateValues? w = some updater) (c : ObjectClass) (options : Options) :
    h.update kind c attributes options w =
      (change kind updater c (h.normalSet c w valid) options >>= fun uid =>
        pure (h.normalUid c w uid)) w := by
  unfold Hosted.update
  rw [hv, Call.bind_apply]
  -- The world is looked at twice, for the normalization and for the updater.
  change (((MonadState.get : Call World World) >>= _) w) = _
  rw [Call.bind_apply, Call.get_apply]
  change (((MonadState.get : Call World World) >>= _) w) = _
  rw [Call.bind_apply, Call.get_apply]
  dsimp only
  rw [hu]
  cases kind <;> rfl

/-- A connector that changes single values is handed the normal form of the checked request, and that only. -/
theorem asked_of_updater {kind : UpdateKind} {c : ObjectClass} {attributes : List Attribute} {options : Options}
    {w : World} (hu : (h.connector.updateValues? w).isSome) :
    ∀ ask ∈ (h.listed.update kind c attributes options (w, [])).2.2, ∃ valid,
      kind.validateRequest attributes = .ok valid ∧
      ask.written? = some (h.normalSet c w valid) ∧ (ask.changesValues = true → kind ≠ .replace) := by
  obtain ⟨updater, hu⟩ := Option.isSome_iff_exists.1 hu
  cases hv : kind.validateRequest attributes with
  | error failure =>
    rw [update_of_invalid hv]
    exact fun ask hask => absurd hask List.not_mem_nil
  | ok valid =>
    have hu' : ∃ u, h.listed.connector.updateValues? (w, []) = some u ∧
        (change kind u c (h.normalSet c w valid) options).Asks
          (fun ask => ask.written? = some (h.normalSet c w valid) ∧
            (ask.changesValues = true → kind ≠ .replace)) fun _ => True := by
      refine ⟨_, congrArg (Option.map _) hu, ?_⟩
      cases kind with
      | add => exact Call.asks_noted ⟨rfl, fun _ => by decide⟩ _
      | delete => exact Call.asks_noted ⟨rfl, fun _ => by decide⟩ _
      | replace => exact Call.asks_noted ⟨rfl, fun h => nomatch h⟩ _
    obtain ⟨u, hu', hasks⟩ := hu'
    rw [update_of_updater hv hu']
    intro ask hask
    rcases ((hasks.bind fun _ _ => Call.asks_pure (Q := fun _ => True) trivial) w []).1 ask hask with hnil | hask
    · exact absurd hnil List.not_mem_nil
    · exact ⟨valid, rfl, hask⟩

theorem asks_writeMerged (kind : UpdateKind) (normal : Uid → Uid) (c : ObjectClass) (request : AttributeSet)
    (options : Options) :
    (h.listed.ability .update h.listed.connector.update? >>= fun _ =>
      h.listed.mergeWithCurrent kind c request options >>= fun merged => do
        let update ← h.listed.ability .update h.listed.connector.update?
        return normal (← update c merged options)).Asks Ask.HandsNamed fun _ => True := by
  refine asks_using fun _ _ _ => ?_
  refine ((asks_mergeWithCurrent kind c request options).mono fun _ => Ask.handsNamed_of_unwritten).bind
    fun merged hmerged => asks_using fun _ update hu => ?_
  obtain ⟨update, -, rfl⟩ := Option.map_eq_some_iff.1 hu
  have hnamed : (Ask.update c merged options).HandsNamed := by
    refine ⟨fun s hs => ?_, rfl⟩
    cases hs
    exact hmerged
  exact (Call.asks_noted hnamed _).bind fun _ _ => Call.asks_pure trivial

/-- Any other connector is handed merged requests, and these name their object. -/
theorem asked_without_updater {kind : UpdateKind} {c : ObjectClass} {attributes : List Attribute}
    {options : Options} {w : World} (hu : h.connector.updateValues? w = none) :
    ∀ ask ∈ (h.listed.update kind c attributes options (w, [])).2.2, ask.HandsNamed := by
  cases hv : kind.validateRequest attributes with
  | error failure =>
    rw [update_of_invalid hv]
    exact fun ask hask => absurd hask List.not_mem_nil
  | ok valid =>
    have hu' : h.listed.connector.updateValues? (w, []) = none := congrArg (Option.map _) hu
    rw [update_without_updater hv hu']
    intro ask hask
    rcases (asks_writeMerged kind _ c _ options w []).1 ask hask with hnil | hask
    · exact absurd hnil List.not_mem_nil
    · exact hask

/-- What a connector is handed to write names the object, if values were merged; a connector that changes single values
is handed the normal form of the checked request, which names it as long as normalization keeps what was checked. -/
theorem update_names_target (h : Hosted World) (kind : UpdateKind) (c : ObjectClass) (attributes : List Attribute)
    (options : Options) (w : World) :
    let n := h.normalization c w
    ∀ ask ∈ (h.listed.update kind c attributes options (w, [])).2.2, ∀ s, ask.written? = some s →
      (h.connector.updateValues? w = none → s.uid?.isSome ∧ ask.changesValues = false) ∧
      ((h.connector.updateValues? w).isSome →
        ∃ valid, kind.validateRequest attributes = .ok valid ∧ s = h.normalSet c w valid) ∧
      (n.KeepsChecked → s.uid?.isSome ∧ (ask.changesValues = true → s.PlainButUid)) := by
  intro n ask hask s hs
  cases hu : h.connector.updateValues? w with
  | none =>
    obtain ⟨hnamed, hwhole⟩ := asked_without_updater hu ask hask
    exact ⟨fun _ => ⟨hnamed s hs, hwhole⟩, (nomatch ·),
      fun _ => ⟨hnamed s hs, fun hv => absurd hv (by simp [hwhole])⟩⟩
  | some updater =>
    obtain ⟨valid, hv, hwritten, hkind⟩ := asked_of_updater (by rw [hu]; rfl) ask hask
    have hnormal : s = h.normalSet c w valid := Option.some.inj (hs.symm.trans hwritten)
    obtain ⟨hnamed, hplain⟩ := kind.of_validateRequest hv
    refine ⟨(nomatch ·), fun _ => ⟨valid, hv, hnormal⟩, fun hn => ?_⟩
    rw [hnormal, ← onSet_normalization]
    exact ⟨hn.uid?_onSet hnamed, fun hvalues => hn.plain_onSet (hplain (hkind hvalues))⟩

/-- Changes single values, of which it wants the texts to be normal in some way. -/
def valueKeeper (normalizer : Normalizer) : Hosted Unit :=
  ⟨default, { Connector.bare with
    normalizer? := fun _ => some normalizer
    updateValues? := fun _ => some
      ⟨fun _ _ _ => pure ⟨"u1"⟩, fun _ _ _ => pure ⟨"u1"⟩, fun _ _ _ => pure ⟨"u1"⟩⟩ }⟩

/-- A team is added to an account, by a connector that folds texts and by one that can only replace. -/
theorem update_names_target_team :
    let keeper := valueKeeper fun _ a => a.mapStrings foldCase
    let attributes : List Attribute := [(Uid.mk "u1").toAttribute, .single "team" (.string "Blue")]
    let added := AttributeSet.ofList [(Uid.mk "u1").toAttribute, .single "team" (.string "blue")]
    let merged := merge .add (.ofList attributes) (.ofList [(Uid.mk "u1").toAttribute,
      .single "mail" (.string "ann@x"), .single "team" (.string "red")])
    (keeper.normalization .account ()).KeepsChecked ∧
    .addValues .account added {} ∈ (keeper.listed.update .add .account attributes {} ((), [])).2.2 ∧
    added.uid?.isSome ∧ added.PlainButUid ∧
    oneAccount.connector.updateValues? () = none ∧
    .update .account merged {} ∈ (oneAccount.listed.update .add .account attributes {} ((), [])).2.2 ∧
    merged.uid?.isSome := by
  intro keeper attributes added merged
  have hn : (keeper.normalization .account ()).KeepsChecked := Normalization.keepsChecked_mapStrings _ _
  have hadd : .addValues .account added {} ∈ (keeper.listed.update .add .account attributes {} ((), [])).2.2 :=
    List.mem_singleton.2 rfl
  have hwrite : .update .account merged {} ∈
      (oneAccount.listed.update .add .account attributes {} ((), [])).2.2 :=
    List.mem_cons_of_mem _ (List.mem_singleton.2 rfl)
  obtain ⟨-, -, hkept⟩ := update_names_target keeper .add .account attributes {} () _ hadd added rfl
  obtain ⟨hmerged, -, -⟩ := update_names_target oneAccount .add .account attributes {} () _ hwrite merged rfl
  exact ⟨hn, hadd, (hkept hn).1, (hkept hn).2 rfl, rfl, hwrite, (hmerged rfl).1⟩

/-- Where the Uid is emptied, what is added goes to no object. -/
example :
    let emptied : Normalizer := fun _ a => if a.isUid then ⟨a.name, some []⟩ else a
    let attributes : List Attribute := [(Uid.mk "u1").toAttribute, .single "team" (.string "blue")]
    ((valueKeeper emptied).listed.update .add .account attributes {} ((), [])).2.2.map
      (fun ask => ask.written?.map AttributeSet.uid?) = [some none] := by rfl

end Hosted

end Provisioning
