import Provisioning.Proofs.Listing
import Provisioning.Request

/-! Checks of requests. A request is a list of attributes, collected first and then looked at as a set; whatever is
wrong with it is the fault of an argument. `UpdateKind.validateRequest_isOk_iff` and `validateCreate_isOk_iff` say
which lists pass, in terms of the attributes as they were given. -/

namespace Provisioning

theorem Attribute.uid?_eq_some_iff {a : Attribute} {uid : Uid} :
    a.uid? = some uid ↔ a.values? = some [.string uid.value] :=
  ⟨values?_of_uid?, fun h => (uid?_congr (b := uid.toAttribute) h).trans uid.uid?_toAttribute⟩

theorem Attribute.isNull_eq_false_iff {a : Attribute} : a.isNull = false ↔ a.values? ≠ none := by
  rw [isNull, Option.isNone_eq_false_iff, Option.isSome_iff_ne_none]

namespace AttributeSet

variable {fault? : AttributeSet → Option ArgumentFault} {attributes : List Attribute} {s : AttributeSet}

/-- Collects attributes, of which each is named once, and looks for a fault of the whole. -/
def checked (fault? : AttributeSet → Option ArgumentFault) (attributes : List Attribute) :
    Except Failure AttributeSet :=
  match ofAttributes attributes with
  | .error e => .error e
  | .ok s =>
    match fault? s with
    | some fault => .error (.invalidArgument fault)
    | none => .ok s

theorem checked_eq_ok_iff :
    checked fault? attributes = .ok s ↔ ofAttributes attributes = .ok s ∧ fault? s = none := by
  unfold checked
  cases ofAttributes attributes with
  | error e => simp
  | ok t =>
    dsimp only
    cases hf : fault? t with
    | some fault =>
      simp only [reduceCtorEq, Except.ok.injEq, false_iff]
      rintro ⟨rfl, hnone⟩
      cases hf.symm.trans hnone
    | none =>
      simp only [Except.ok.injEq, iff_self_and]
      rintro rfl
      exact hf

theorem fault_of_checked {e : Failure} (h : checked fault? attributes = .error e) :
    ∃ fault, e = .invalidArgument fault := by
  unfold checked at h
  split at h
  · next e' hs =>
    obtain ⟨_, a, _, _, _, _, he⟩ := ofAttributes_eq_error_iff.1 hs
    exact ⟨.duplicateAttribute a.name, (Except.error.inj h).symm.trans he⟩
  · split at h
    · next fault _ => exact ⟨fault, (Except.error.inj h).symm⟩
    · cases h

theorem fault_of_not_checked (h : ¬ ∃ s, checked fault? attributes = .ok s) :
    ∃ fault, checked fault? attributes = .error (.invalidArgument fault) := by
  cases hc : checked fault? attributes with
  | ok s => exact absurd ⟨s, hc⟩ h
  | error e =>
    obtain ⟨fault, rfl⟩ := fault_of_checked hc
    exact ⟨fault, rfl⟩

theorem exists_ofAttributes_iff {P : AttributeSet → Prop} :
    (∃ s, ofAttributes attributes = .ok s ∧ P s) ↔ Distinct attributes ∧ P (ofList attributes) := by
  simp only [ofAttributes_eq_ok_iff]
  constructor
  · rintro ⟨_, ⟨hd, rfl⟩, h⟩
    exact ⟨hd, h⟩
  · rintro ⟨hd, h⟩
    exact ⟨_, ⟨hd, rfl⟩, h⟩

theorem uid?_isSome_iff :
    s.uid?.isSome ↔ ∃ a ∈ s.entries, a.isUid = true ∧ ∃ text, a.values? = some [.string text] := by
  rw [uid?, Option.isSome_iff_exists]
  constructor
  · rintro ⟨uid, h⟩
    obtain ⟨a, ha, huid⟩ := Option.bind_eq_some_iff.1 h
    obtain ⟨hmem, hnamed⟩ := get?_eq_some_iff.1 ha
    exact ⟨a, hmem, hnamed, uid.value, Attribute.uid?_eq_some_iff.1 huid⟩
  · rintro ⟨a, hmem, hnamed, text, hvalues⟩
    exact ⟨⟨text⟩, Option.bind_eq_some_iff.2
      ⟨a, get?_eq_some_iff.2 ⟨hmem, hnamed⟩, Attribute.uid?_eq_some_iff.2 hvalues⟩⟩

theorem perm_of_ofAttributes (h : ofAttributes attributes = .ok s) : s.toList.Perm attributes := by
  obtain ⟨hd, rfl⟩ := ofAttributes_eq_ok_iff.1 h
  exact entries_ofList hd

end AttributeSet

namespace UpdateKind

variable {kind : UpdateKind} {attributes : List Attribute} {s : AttributeSet}

theorem fault?_eq_none_iff {a : Attribute} : kind.fault? a = none ↔ a.isNull = false ∧ a.isSpecial = false := by
  unfold fault?
  split
  · next h => simp [h]
  · split
    · next h => simp [h]
    · next hnull hspecial => simp [hnull, hspecial]

def requestFault? (kind : UpdateKind) (request : AttributeSet) : Option ArgumentFault :=
  match request.get? uidName with
  | none => some .updateWithoutUidAttribute
  | some a =>
    if a.uid? = none then some (.uidShape a)
    else if kind = .replace then none
    else (request.entries.filter fun a => !a.isUid).findSome? kind.fault?

theorem validateRequest_eq (kind : UpdateKind) (attributes : List Attribute) :
    kind.validateRequest attributes = AttributeSet.checked kind.requestFault? attributes := by
  unfold validateRequest AttributeSet.checked requestFault?
  cases AttributeSet.ofAttributes attributes with
  | error e => rfl
  | ok request =>
    dsimp only [bind, Except.bind]
    cases request.get? uidName with
    | none => rfl
    | some a =>
      dsimp only
      cases hu : a.uid? with
      | none =>
        simp only [Uid.ofAttribute, hu]
        rfl
      | some uid =>
        simp only [Uid.ofAttribute, hu, reduceCtorEq, if_false]
        split
        · rfl
        · rfl

theorem requestFault?_eq_none_iff {request : AttributeSet} :
    kind.requestFault? request = none ↔ request.uid?.isSome ∧
      (kind ≠ .replace → ∀ a ∈ request.entries, a.isUid = false → a.isNull = false ∧ a.isSpecial = false) := by
  unfold requestFault? AttributeSet.uid?
  cases request.get? uidName with
  | none => simp
  | some a =>
    cases hu : a.uid? with
    | none => simp [hu]
    | some uid =>
      have hothers : (request.entries.filter fun a => !a.isUid).findSome? kind.fault? = none ↔
          ∀ a ∈ request.entries, a.isUid = false → a.isNull = false ∧ a.isSpecial = false := by
        simp [List.findSome?_eq_none_iff, fault?_eq_none_iff]
      by_cases hkind : kind = .replace
      · simp [hu, hkind]
      · simp [hu, hkind, hothers]

theorem validateRequest_eq_ok_iff :
    kind.validateRequest attributes = .ok s ↔ AttributeSet.ofAttributes attributes = .ok s ∧ s.uid?.isSome ∧
      (kind ≠ .replace → ∀ a ∈ s.entries, a.isUid = false → a.isNull = false ∧ a.isSpecial = false) := by
  rw [validateRequest_eq, AttributeSet.checked_eq_ok_iff, requestFault?_eq_none_iff]

theorem fault_of_validateRequest {e : Failure} (h : kind.validateRequest attributes = .error e) :
    ∃ fault, e = .invalidArgument fault :=
  AttributeSet.fault_of_checked (kind.validateRequest_eq attributes ▸ h)

/-- The lists that an update may be asked for with. Only where values are added or removed, every attribute
besides the Uid has a list of values and no reserved name. -/
structure Accepts (kind : UpdateKind) (attributes : List Attribute) : Prop where
  distinct : AttributeSet.Distinct attributes
  named : ∃ a ∈ attributes, a.isUid = true ∧ ∃ text, a.values? = some [.string text]
  ordinary : kind = .add ∨ kind = .delete → ∀ a ∈ attributes, a.isUid = false →
    a.values? ≠ none ∧ isSpecialName a.name = false

/-- Just the lists that an update may be asked for with pass. -/
theorem validateRequest_isOk_iff : (∃ s, kind.validateRequest attributes = .ok s) ↔ kind.Accepts attributes := by
  have hreplace : kind ≠ .replace ↔ kind = .add ∨ kind = .delete := by cases kind <;> simp
  simp only [validateRequest_eq_ok_iff, AttributeSet.exists_ofAttributes_iff, AttributeSet.uid?_isSome_iff, hreplace,
    Attribute.isNull_eq_false_iff]
  constructor
  · rintro ⟨hd, hnamed, hordinary⟩
    simp only [(AttributeSet.entries_ofList hd).mem_iff] at hnamed hordinary
    exact ⟨hd, hnamed, hordinary⟩
  · rintro ⟨hd, hnamed, hordinary⟩
    simp only [(AttributeSet.entries_ofList hd).mem_iff]
    exact ⟨hd, hnamed, hordinary⟩

theorem fault_of_not_accepts (h : ¬ kind.Accepts attributes) :
    ∃ fault, kind.validateRequest attributes = .error (.invalidArgument fault) := by
  rw [← validateRequest_isOk_iff] at h
  simp only [validateRequest_eq] at h ⊢
  exact AttributeSet.fault_of_not_checked h

end UpdateKind

theorem validateCreate_eq (attributes : List Attribute) :
    validateCreate attributes =
      AttributeSet.checked (fun s => if s.contains uidName then some .createWithUid else none) attributes := by
  unfold validateCreate AttributeSet.checked
  cases AttributeSet.ofAttributes attributes with
  | error e => rfl
  | ok s =>
    dsimp only [bind, Except.bind]
    cases s.contains uidName <;> rfl

theorem validateCreate_eq_ok_iff {attributes : List Attribute} {s : AttributeSet} :
    validateCreate attributes = .ok s ↔ AttributeSet.ofAttributes attributes = .ok s ∧ s.contains uidName = false := by
  rw [validateCreate_eq, AttributeSet.checked_eq_ok_iff]
  simp

/-- The lists that a new object may be made of. -/
structure AcceptsNew (attributes : List Attribute) : Prop where
  distinct : AttributeSet.Distinct attributes
  unidentified : ∀ a ∈ attributes, a.isUid = false

/-- Just the lists that a new object can be made of pass. -/
theorem validateCreate_isOk_iff {attributes : List Attribute} :
    (∃ s, validateCreate attributes = .ok s) ↔ AcceptsNew attributes := by
  simp only [validateCreate_eq_ok_iff, AttributeSet.exists_ofAttributes_iff, Bool.eq_false_iff, Ne,
    AttributeSet.contains_iff]
  constructor
  · rintro ⟨hd, hno⟩
    exact ⟨hd, fun a ha => Bool.eq_false_iff.2 fun huid => hno ⟨a, (AttributeSet.entries_ofList hd).mem_iff.2 ha, huid⟩⟩
  · rintro ⟨hd, hno⟩
    refine ⟨hd, fun ⟨a, ha, huid⟩ => ?_⟩
    exact Bool.eq_false_iff.1 (hno a ((AttributeSet.entries_ofList hd).mem_iff.1 ha)) huid

theorem fault_of_validateCreate {attributes : List Attribute} {e : Failure}
    (h : validateCreate attributes = .error e) : ∃ fault, e = .invalidArgument fault :=
  AttributeSet.fault_of_checked (validateCreate_eq attributes ▸ h)

theorem fault_of_not_acceptsNew {attributes : List Attribute} (h : ¬ AcceptsNew attributes) :
    ∃ fault, validateCreate attributes = .error (.invalidArgument fault) := by
  rw [← validateCreate_isOk_iff] at h
  simp only [validateCreate_eq] at h ⊢
  exact AttributeSet.fault_of_not_checked h

end Provisioning
