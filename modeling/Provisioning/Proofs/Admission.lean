import Provisioning.Proofs.Checks
import Provisioning.Proofs.Update

/-! Admission of requests. A request to create or to update is looked at before anything else is done, so one that is
not in order reaches no ability of the connector; a new object that is in order is created with one call:
`admits_what_is_in_order`. -/

namespace Provisioning

namespace Hosted

variable {World : Type} {h : Hosted World} {attributes : List Attribute}

theorem create_of_invalid {failure : Failure} (hv : validateCreate attributes = .error failure) (c : ObjectClass)
    (options : Options) (w : World) : h.create c attributes options w = (.error (.failed failure), w) := by
  unfold create
  rw [hv]
  rfl

theorem create_of_valid {valid : AttributeSet} (hv : validateCreate attributes = .ok valid) {w : World}
    {create : ObjectClass → AttributeSet → Options → Call World Uid} (hc : h.connector.create? w = some create)
    (c : ObjectClass) (options : Options) :
    let result := create c (h.normalSet c w valid) options w
    h.create c attributes options w = (result.1.map (h.normalUid c w), result.2) := by
  intro result
  unfold Hosted.create
  rw [hv]
  change (h.ability .create h.connector.create? >>= fun create => do
    return h.normalUid c w (← create c (h.normalSet c w valid) options)) w = _
  rw [Call.bind_apply, ability_apply, hc]
  exact Call.bind_pure_apply (create c (h.normalSet c w valid) options) (h.normalUid c w) w

theorem listed_create_of_valid {valid : AttributeSet} (hv : validateCreate attributes = .ok valid) {w : World}
    {create : ObjectClass → AttributeSet → Options → Call World Uid} (hc : h.connector.create? w = some create)
    (c : ObjectClass) (options : Options) :
    let result := create c (h.normalSet c w valid) options w
    h.listed.create c attributes options (w, []) =
      Call.ended [.create c (h.normalSet c w valid) options] (result.1.map (h.normalUid c w), result.2) := by
  have hlisted : h.listed.connector.create? (w, []) = some fun c attributes options =>
      (create c attributes options).noted (· ++ [.create c attributes options]) := by
    change (h.connector.create? w).map _ = _
    rw [hc]
    rfl
  exact create_of_valid hv hlisted c options

/-- Only the lists that `Accepts` or `AcceptsNew` describes are admitted, as they are. Any other is refused as
an invalid argument before the connector is asked for anything. -/
theorem admits_what_is_in_order (h : Hosted World) (c : ObjectClass) (attributes : List Attribute)
    (options : Options) (w : World) :
    (∀ kind : UpdateKind,
      ((∃ s, kind.validateRequest attributes = .ok s) ↔ kind.Accepts attributes) ∧
      (∀ s, kind.validateRequest attributes = .ok s → s.toList.Perm attributes) ∧
      (¬ kind.Accepts attributes → ∃ fault,
        kind.validateRequest attributes = .error (.invalidArgument fault) ∧
        h.listed.update kind c attributes options (w, []) = (.error (.failed (.invalidArgument fault)), w, []))) ∧
    ((∃ s, validateCreate attributes = .ok s) ↔ AcceptsNew attributes) ∧
    (∀ s, validateCreate attributes = .ok s → s.toList.Perm attributes ∧
      ∀ create, h.connector.create? w = some create →
        let result := create c (h.normalSet c w s) options w
        h.listed.create c attributes options (w, []) =
          (result.1.map (h.normalUid c w), result.2, [.create c (h.normalSet c w s) options])) ∧
    (¬ AcceptsNew attributes → ∃ fault,
      validateCreate attributes = .error (.invalidArgument fault) ∧
      h.listed.create c attributes options (w, []) = (.error (.failed (.invalidArgument fault)), w, [])) := by
  refine ⟨fun kind => ⟨UpdateKind.validateRequest_isOk_iff, fun s hs => ?collected, fun hrefused => ?refused⟩,
    validateCreate_isOk_iff, fun s hs => ⟨?collectedNew, fun create hc => ?created⟩, fun hrefused => ?refusedNew⟩
  case collected => exact AttributeSet.perm_of_ofAttributes (UpdateKind.validateRequest_eq_ok_iff.1 hs).1
  case refused =>
    obtain ⟨fault, hfault⟩ := UpdateKind.fault_of_not_accepts hrefused
    exact ⟨fault, hfault, update_of_invalid hfault c options _⟩
  case collectedNew => exact AttributeSet.perm_of_ofAttributes (validateCreate_eq_ok_iff.1 hs).1
  case created => exact listed_create_of_valid hs hc c options
  case refusedNew =>
    obtain ⟨fault, hfault⟩ := fault_of_not_acceptsNew hrefused
    exact ⟨fault, hfault, create_of_invalid hfault c options _⟩

end Hosted

end Provisioning
