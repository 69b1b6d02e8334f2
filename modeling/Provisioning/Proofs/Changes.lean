import Provisioning.Normalizer.Rule
import Provisioning.Proofs.Answers
import Provisioning.Proofs.Lookups
import Provisioning.Proofs.Scan
import Provisioning.Request

/-! Following changes. A delta is normalized and reduced on its way, and none is left out. The Uid of a delta
and the Uid of its object are normalized apart, the one as an attribute made for it, the other with the
attributes of the object; both stay as they are if nothing usable comes out. So they agree for every normalizer
that looks at no more of a name than names are compared by, if the object carries its Uid, and else they do not:
`carriesUid_iff_uids_agree`. -/

namespace Provisioning

namespace Delta

/-- The object is there unless it is gone, and has the Uid of the delta. -/
structure Lawful (d : Delta) : Prop where
  gone : d.object? = none ↔ d.kind = .delete
  same_uid : ∀ o ∈ d.object?, o.uid = d.uid

theorem lawful_of_build {draft : DeltaDraft} {d : Delta} (h : draft.build = .ok d) : d.Lawful := by
  obtain ⟨token, kind, uid?, previousUid?, object?⟩ := draft
  simp only [DeltaDraft.build, bind, Except.bind, pure, Except.pure] at h
  split at h
  · cases h
  next hobject =>
    split at h
    · cases h
    next uid huid =>
      cases h
      refine ⟨?_, ?_⟩
      · cases kind <;> cases object? <;> simp_all [DeltaDraft.checkObject]
      · rintro o ⟨⟩
        simp only [DeltaDraft.resolveUid] at huid
        cases uid? with
        | none => exact Except.ok.inj huid
        | some given =>
          dsimp only at huid
          split at huid
          · next hsame => exact hsame.trans (Except.ok.inj huid)
          · cases huid

theorem lawful_iff_built {d : Delta} : d.Lawful ↔ ∃ draft : DeltaDraft, draft.build = .ok d := by
  refine ⟨fun h => ⟨⟨d.token, d.kind, some d.uid, d.previousUid?, d.object?⟩, ?_⟩, fun ⟨_, h⟩ => lawful_of_build h⟩
  obtain ⟨token, kind, uid, previousUid?, object?⟩ := d
  have hgone := h.gone
  have huid := h.same_uid
  cases object? with
  | none =>
    obtain rfl : kind = .delete := hgone.1 rfl
    rfl
  | some o =>
    have hsame : o.uid = uid := huid o rfl
    have hkind : kind ≠ .delete := fun hk => nomatch hgone.2 hk
    simp only [DeltaDraft.build, DeltaDraft.checkObject, DeltaDraft.resolveUid, hsame, if_true]
    cases kind with
    | delete => exact absurd rfl hkind
    | _ => rfl

end Delta

/-- Keeps the name of an attribute, and looks at no more of it than names are compared by. -/
structure RespectsNames (f : Attribute → Attribute) : Prop where
  name : ∀ a, (f a).name = a.name
  values? : ∀ a b : Attribute, sameName a.name b.name = true → a.values? = b.values? → (f a).values? = (f b).values?

namespace Hosted

variable {World : Type} {h : Hosted World} {c : ObjectClass} {w : World}

/-- The Uid of an object is normalized in the same way, apart from the object and with it. -/
theorem uid_normalObject (hrespects : RespectsNames (h.normalAttribute c w)) {o : ConnectorObject}
    (ho : o.CarriesUid) : (h.normalObject c w o).uid = h.normalUid c w o.uid := by
  obtain ⟨a, ha, hu⟩ := ho
  have hsame : sameName a.name uidName = true := (AttributeSet.get?_eq_some_iff.1 ha).2
  have hvalues : (h.normalAttribute c w a).uid? = (h.normalAttribute c w o.uid.toAttribute).uid? :=
    Attribute.uid?_congr (hrespects.values? a o.uid.toAttribute hsame (Attribute.values?_of_uid? hu))
  have hfound := Normalization.get?_onObject (n := h.normalization c w) hrespects.name o uidName
  rw [ha, onObject_normalization, onAttribute_normalization] at hfound
  unfold normalObject normalUid at *
  unfold normalAttribute at hvalues hfound
  cases hnormal : h.connector.normalizer? w with
  | none => rfl
  | some normal =>
    simp only [hnormal] at hvalues hfound
    change (((o.attributes.map (normal c)).get? uidName).bind Attribute.uid?).getD o.uid = _
    rw [hfound]
    exact congrArg (Option.getD · o.uid) hvalues

def takingFor (World : Type) (old new : Uid) : Hosted World :=
  ⟨default, { Connector.bare with
    normalizer? := fun _ => some fun _ a =>
      if a.uid? = some old then { a with values? := new.toAttribute.values? } else a }⟩

theorem respectsNames_takingFor (old new : Uid) (c : ObjectClass) (w : World) :
    RespectsNames ((takingFor World old new).normalAttribute c w) where
  name a := by
    change (if a.uid? = some old then _ else a).name = a.name
    split <;> rfl
  values? a b _ hvalues := by
    change (if a.uid? = some old then _ else a).values? = (if b.uid? = some old then _ else b).values?
    rw [Attribute.uid?_congr hvalues]
    split
    · rfl
    · exact hvalues

theorem exists_other_uid (u v : Uid) : ∃ t : Uid, t ≠ u ∧ t ≠ v := by
  refine ⟨⟨u.value ++ v.value ++ "+"⟩, fun h => ?_, fun h => ?_⟩
  all_goals
    have hlength := congrArg (String.length ∘ Uid.value) h
    simp only [Function.comp, String.length_append] at hlength
    have hone : "+".length = 1 := rfl
    omega

/-- An object carries its Uid just if its normal form has the normal Uid for every normalizer that respects names. -/
theorem carriesUid_iff_uids_agree (c : ObjectClass) (w : World) (o : ConnectorObject) :
    o.CarriesUid ↔ ∀ h : Hosted World, RespectsNames (h.normalAttribute c w) →
      (h.normalObject c w o).uid = h.normalUid c w o.uid := by
  refine ⟨fun ho h hrespects => uid_normalObject hrespects ho, fun hagree => ?_⟩
  obtain ⟨t, ht, hheld⟩ := exists_other_uid o.uid (o.attributes.uid?.getD o.uid)
  set normal := (takingFor World o.uid t).normalAttribute c w with hnormal
  have hrespects : RespectsNames normal := respectsNames_takingFor o.uid t c w
  have hfound := Normalization.get?_onObject (n := (takingFor World o.uid t).normalization c w) hrespects.name o
    uidName
  have hread : (((o.attributes.get? uidName).map normal).bind Attribute.uid?).getD o.uid = t := by
    rw [hnormal, ← onAttribute_normalization, ← hfound]
    exact (hagree _ hrespects).trans (by simp [normalUid, takingFor, Attribute.uid?_congr (b := t.toAttribute)])
  cases hget : o.attributes.get? uidName with
  | none =>
    rw [hget] at hread
    exact absurd hread.symm ht
  | some a =>
    -- an attribute that does not hold the Uid stays as it is
    refine ⟨a, hget, by_contra fun hu => hheld ?_⟩
    have hkept : normal a = a := if_neg hu
    rw [hget, Option.map_some, hkept] at hread
    rw [AttributeSet.uid?, hget]
    exact hread.symm

end Hosted

def Delta.refined (n : Normalization) (options : Options) (d : Delta) : Delta :=
  d.map n.onUid fun o => options.reduce (n.onObject o)

structure Delta.ReceivedAs {World : Type} (h : Hosted World) (c : ObjectClass) (w : World) (options : Options)
    (d received : Delta) : Prop where
  token : received.token = d.token
  kind : received.kind = d.kind
  uid : received.uid = h.normalUid c w d.uid
  previousUid? : received.previousUid? = d.previousUid?.map (h.normalUid c w)
  object? : received.object? = d.object?.map fun o => options.reduce (h.normalObject c w o)

namespace Delta.ReceivedAs

variable {World : Type} {h : Hosted World} {c : ObjectClass} {w : World} {options : Options} {d received : Delta}

theorem lawful_iff (hr : d.ReceivedAs h c w options received) (hd : d.Lawful) :
    received.Lawful ↔ ∀ o ∈ d.object?, (h.normalObject c w o).uid = h.normalUid c w o.uid := by
  have hgone : received.object? = none ↔ received.kind = .delete := by
    rw [hr.object?, hr.kind, Option.map_eq_none_iff]
    exact hd.gone
  have hsame : (∀ o ∈ received.object?, o.uid = received.uid) ↔
      ∀ o ∈ d.object?, (h.normalObject c w o).uid = h.normalUid c w o.uid := by
    rw [hr.object?, hr.uid]
    cases hobject : d.object? with
    | none => exact iff_of_true nofun nofun
    | some o =>
      simp only [Option.map_some, Option.mem_some_iff, forall_eq', Options.uid_reduce, hd.same_uid o hobject]
  exact ⟨fun hlawful => hsame.1 hlawful.same_uid, fun hagree => ⟨hgone, hsame.2 hagree⟩⟩

end Delta.ReceivedAs

namespace Hosted

variable {World σ ρ : Type}

def refineDeltas (n : Normalization) (options : Options) (d : Delivery Delta ρ) : Delivery Delta ρ :=
  match options.restriction? with
  | some names => (d.deltasNormalized n).deltasReduced names
  | none => d.deltasNormalized n

theorem sync_eq {h : Hosted World} {w : World} {source : ChangeSource World}
    (hsync : h.connector.sync? w = some source) (c : ObjectClass) (token? : Option SyncToken)
    (options : Options) :
    h.sync c token? options w =
      refineDeltas (h.normalization c w) options (source.changes c token? options w) := by
  simp only [sync, hsync]
  rfl

theorem onDelta_eq (n : Normalization) (d : Delta) : n.onDelta d = d.map n.onUid n.onObject := by
  obtain ⟨c, normalizer?⟩ := n
  cases normalizer? with
  | none =>
    have huid : (⟨c, none⟩ : Normalization).onUid = id := rfl
    have hobject : (⟨c, none⟩ : Normalization).onObject = id := rfl
    simp only [Normalization.onDelta, Delta.map, huid, hobject, Option.map_id, id]
  | some g => rfl

theorem refineDeltas_eq (n : Normalization) (options : Options) (d : Delivery Delta ρ) :
    refineDeltas n options d = d.mapItems (Delta.refined n options) := by
  unfold refineDeltas
  cases hnames : options.restriction? with
  | none =>
    refine congrArg d.mapItems (funext fun delta => ?_)
    simp only [onDelta_eq, Delta.refined, Options.reduce_of_unrestricted hnames]
  | some names =>
    dsimp only [Delivery.deltasNormalized, Delivery.deltasReduced]
    rw [Delivery.mapItems_mapItems]
    refine congrArg d.mapItems (funext fun delta => ?_)
    simp only [onDelta_eq, Delta.refined, Options.reduce_of_restricted hnames, Delta.map, Option.map_map, id]
    rfl

/-- Every delta reaches the caller once and in order, changed by normalization and reduction alone. One that was built
arrives as one that could be built, for every normalizer that respects names just if its object carries its Uid. -/
theorem sync_relays_deltas {h : Hosted World} {w : World} {source : ChangeSource World}
    (hsync : h.connector.sync? w = some source) (c : ObjectClass) (token? : Option SyncToken) (options : Options)
    (handler : Handler Delta σ) (s : σ) :
    (∃ result s' passed handed,
      ((h.sync c token? options w).run handler).run s = (result, s') ∧
      ((refineDeltas (h.normalization c w) options ((source.changes c token? options w).answered [])).run
        handler.answering).run (s, []) = ((result, passed), s', handed) ∧
      List.Forall₂ (fun x y => Delta.ReceivedAs h c w options x.1 y.1 ∧ y.2 = x.2 ∧
        ((∃ draft : DeltaDraft, draft.build = .ok x.1) → (y.1.Lawful ↔
          ∀ o ∈ x.1.object?, (h.normalObject c w o).uid = h.normalUid c w o.uid))) passed handed) ∧
    ∀ o : ConnectorObject, o.CarriesUid ↔ ∀ other : Hosted World, RespectsNames (other.normalAttribute c w) →
      (other.normalObject c w o).uid = other.normalUid c w o.uid := by
  refine ⟨?_, carriesUid_iff_uids_agree c w⟩
  let n := h.normalization c w
  obtain ⟨result, passed, s', hrun⟩ := Delivery.run_answered_mapItems (Delta.refined n options) handler
    (source.changes c token? options w) [] s
  rw [← refineDeltas_eq] at hrun
  refine ⟨result, s', passed, passed.map (Prod.map (Delta.refined n options) id), ?_, hrun, ?_⟩
  · rw [sync_eq hsync, Delivery.run_answering handler _ s [], refineDeltas_eq,
      ← Delivery.mapResult_answered [] (source.changes c token? options w), ← Delivery.mapResult_mapItems,
      Delivery.run_mapResult, ← refineDeltas_eq]
    exact congrArg (fun ended => (ended.1.1, ended.2.1)) hrun
  · rw [List.forall₂_map_right_iff, List.forall₂_same]
    intro x _
    have hreceived : Delta.ReceivedAs h c w options x.1 (x.1.refined n options) := by
      rw [Delta.refined, onUid_normalization, onObject_normalization]
      exact ⟨rfl, rfl, rfl, rfl, rfl⟩
    exact ⟨hreceived, rfl, fun hbuilt => hreceived.lawful_iff (Delta.lawful_iff_built.2 hbuilt)⟩

def ownSpelling : Draft := (Draft.empty.withAttribute (.single "__uid__" (.string "U1"))).withName "Ann"

/-- The account was built before its attribute for the Uid was emptied. -/
def emptied : ConnectorObject :=
  (⟨.account, ⟨"U2"⟩, ((Draft.empty.withUid "U2").withName "Bob").attributes⟩ : ConnectorObject).mapAttributes
    fun a => if a.isUid then ⟨a.name, some []⟩ else a

def accountChanges : List Delta :=
  [⟨.integer 1, .update, ⟨"U1"⟩, some ⟨"U0"⟩, some ⟨.account, ⟨"U1"⟩, ownSpelling.attributes⟩⟩,
    ⟨.integer 2, .delete, ⟨"U1"⟩, none, none⟩,
    ⟨.integer 3, .update, ⟨"U2"⟩, none, some emptied⟩]

def loweringChanges : Hosted Unit :=
  ⟨default, { Connector.bare with
    sync? := fun _ => some ⟨fun _ _ _ w => .untilStopped (.ok (), w) accountChanges, fun _ => pure none⟩
    normalizer? := fun _ => some fun _ a => a.mapStrings foldCase }⟩

/-- All Uids are received in lower case, but for that of the account with no Uid among its attributes. -/
theorem sync_relays_deltas_emptied :
    (loweringChanges.connector.sync? ()).isSome ∧
    RespectsNames (loweringChanges.normalAttribute .account ()) ∧
    (∀ d ∈ accountChanges, ∃ draft : DeltaDraft, draft.build = .ok d) ∧ ¬ emptied.CarriesUid ∧
    ∃ handed : List (Delta × Bool),
      List.Forall₂ (fun x y => Delta.ReceivedAs loweringChanges .account () {} x.1 y.1 ∧ y.2 = x.2)
        (accountChanges.map fun d => (d, true)) handed ∧
      handed.map (fun y => (y.1.uid, y.1.object?.map (·.uid))) =
        [(⟨"u1"⟩, some ⟨"u1"⟩), (⟨"u1"⟩, none), (⟨"u2"⟩, some ⟨"U2"⟩)] := by
  have hrespects : RespectsNames (loweringChanges.normalAttribute .account ()) :=
    ⟨fun _ => rfl, fun _ _ _ hvalues => congrArg (Option.map _) hvalues⟩
  have hbuilt : ∀ d ∈ accountChanges, ∃ draft : DeltaDraft, draft.build = .ok d := by
    intro d hd
    refine Delta.lawful_iff_built.1 ?_
    simp only [accountChanges, List.mem_cons, List.not_mem_nil, or_false] at hd
    obtain rfl | rfl | rfl := hd
    · exact ⟨by decide, by rintro o ⟨⟩; rfl⟩
    · exact ⟨by decide, nofun⟩
    · exact ⟨by decide, by rintro o ⟨⟩; decide⟩
  obtain ⟨⟨result, s', passed, handed, -, hrecorded, hreceived⟩, hcarries⟩ :=
    sync_relays_deltas (h := loweringChanges) (w := ()) rfl .account none {} (Handler.upTo none) []
  cases hrecorded
  refine ⟨rfl, hrespects, hbuilt, fun hemptied => ?_, _, hreceived.imp fun _ _ h => ⟨h.1, h.2.1⟩, by decide +kernel⟩
  have hagree := (hcarries emptied).1 hemptied loweringChanges hrespects
  revert hagree
  decide +kernel

end Hosted

end Provisioning
