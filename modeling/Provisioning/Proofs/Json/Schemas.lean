import Provisioning.Proofs.Json.Forms
import Provisioning.Proofs.Schemas
import Provisioning.Wire.Schema

/-! Schemas as JSON text and back. A schema that is put together class by class and restriction by restriction is read
from its text as it was, and so gives the same answers. -/

namespace Provisioning

open Json

/-! What a form tells. -/

namespace Json

/-- A form of no more than so many levels that its text tells exactly and that is read as a value. -/
structure Tells {α : Type} (j : Json) (d : Decoder α) (levels : Nat) (a : α) : Prop where
  exact : j.isExact = true
  depth_le : j.depth ≤ levels
  read : d j = some a

variable {α : Type} {write : α → Json} {d : Decoder α} {levels : Nat}

theorem Tells.list {l : List α} (h : ∀ a ∈ l, (write a).Tells d levels a) :
    (Json.array (l.map write)).Tells (.list d) (levels + 1) l where
  exact := by
    rw [isExact, areExact_iff, List.forall_mem_map]
    exact fun a ha => (h a ha).exact
  depth_le := by
    have hitems : depthOfItems (l.map write) ≤ levels :=
      depthOfItems_le (List.forall_mem_map.2 fun a ha => (h a ha).depth_le)
    rw [Json.depth]
    omega
  read := mapM_map fun a ha => (h a ha).read

theorem haveExact_iff (members : List (String × Json)) :
    haveExact members = true ↔ ∀ m ∈ members, m.2.isExact = true := by
  induction members with
  | nil => simp [haveExact]
  | cons m rest ih => simp [haveExact, ih]

theorem depthOfMembers_le {members : List (String × Json)} (h : ∀ m ∈ members, m.2.depth ≤ levels) :
    depthOfMembers members ≤ levels := by
  induction members with
  | nil => exact Nat.zero_le levels
  | cons m rest ih =>
    have ⟨hm, hrest⟩ := List.forall_mem_cons.1 h
    exact Nat.max_le.2 ⟨hm, ih hrest⟩

theorem Tells.members {form : String × α → Json} {l : List (String × α)} (h : ∀ m ∈ l, (form m).Tells d levels m.2) :
    (Json.object (l.map fun m => (m.1, form m))).Tells (.members d) (levels + 1) l where
  exact := by
    rw [isExact, haveExact_iff, List.forall_mem_map]
    exact fun m hm => (h m hm).exact
  depth_le := by
    have hmembers : depthOfMembers (l.map fun m => (m.1, form m)) ≤ levels :=
      depthOfMembers_le (List.forall_mem_map.2 fun m hm => (h m hm).depth_le)
    rw [Json.depth]
    omega
  read := mapM_map fun m hm => by rw [(h m hm).read, Option.map_some]

theorem Tells.text (s : String) : (Json.string s).Tells Decoder.text 0 s := ⟨rfl, Nat.le_refl 0, rfl⟩

end Json

theorem Coded.ofText?_text_of_tells {α : Type} [Coded α] {a : α} {levels : Nat}
    (h : (toJson a).Tells ofJson? levels a) (hlevels : levels ≤ maxDepth) : ofText? (text a) = some a :=
  ofText?_text h.exact (Nat.le_trans h.depth_le hlevels) h.read

/-! Parts of schemas. -/

theorem Operation.ofText?_text (o : Operation) : ofText? o.text = some o := by cases o <;> rfl

theorem DataType.ofText?_text (d : DataType) : ofText? d.text = some d := by cases d <;> rfl

theorem AttributeInfo.tells (a : AttributeInfo) : a.toJson.Tells ofJson? 1 a where
  exact := by simp [toJson, DataType.toJson, isExact, haveExact]
  depth_le := by simp [toJson, DataType.toJson, Json.depth, depthOfMembers]
  read := by
    have hkind : DataType.ofJson? (.string a.dataType.text) = some a.dataType := a.dataType.ofText?_text
    simp [toJson, DataType.toJson, ofJson?, fields, List.lookup_cons, hkind]

theorem ObjectClassInfo.tells (c : ObjectClassInfo) : c.toJson.Tells ofJson? 3 c := by
  have hattributes := Tells.list fun a (_ : a ∈ c.attributes) => a.tells
  unfold toJson
  generalize array (c.attributes.map AttributeInfo.toJson) = attributes at hattributes ⊢
  have hdepth := hattributes.depth_le
  refine ⟨?_, ?_, ?_⟩
  · simp [isExact, haveExact, hattributes.exact]
  · simp [Json.depth, depthOfMembers]
    omega
  · simp [ofJson?, fields, List.lookup_cons, hattributes.read]

/-! Schemas. -/

namespace Schema

theorem tells_restrictions {restrictions : List (Operation × List String)} (h : Ordered restrictions) :
    (Json.object (restrictions.map fun r => (r.1.text, .array (r.2.map .string)))).Tells restrictionsOfJson? 2
      restrictions := by
  -- the texts of the operations are read after the members
  have hmembers := Tells.members (l := restrictions.map fun r => (r.1.text, r.2)) fun m _ =>
    Tells.list fun name (_ : name ∈ m.2) => Tells.text name
  have hnamed : (restrictions.map fun r => (r.1.text, r.2)).mapM (fun m => (Operation.ofText? m.1).map (·, m.2)) =
      some restrictions := mapM_map fun r _ => by rw [r.1.ofText?_text, Option.map_some]
  have hput : restrictions.foldl (fun rs r => insertRestriction r.1 r.2 rs) [] = restrictions :=
    foldl_insertRestriction h
  rw [List.map_map] at hmembers
  refine ⟨hmembers.exact, hmembers.depth_le, ?_⟩
  have hread := hmembers.read
  rw [Function.comp_def] at hread
  simp [restrictionsOfJson?, hread, hnamed, hput]

theorem tells (s : Schema) (h : Ordered s.restrictions) : s.toJson.Tells ofJson? 5 s := by
  have hclasses := Tells.list fun c (_ : c ∈ s.objectClasses) => c.tells
  have hrestrictions := tells_restrictions h
  unfold toJson
  generalize array (s.objectClasses.map ObjectClassInfo.toJson) = classes at hclasses ⊢
  generalize object (s.restrictions.map _) = restrictions at hrestrictions ⊢
  have hdepth := hclasses.depth_le
  have hdepth' := hrestrictions.depth_le
  obtain ⟨objectClasses, _ | ⟨r, rest⟩⟩ := s
  · refine ⟨?_, ?_, ?_⟩
    · simp [isExact, haveExact, hclasses.exact]
    · simp [Json.depth, depthOfMembers]
      omega
    · simp [ofJson?, fields, List.lookup_cons, hclasses.read]
  · refine ⟨?_, ?_, ?_⟩
    · simp [isExact, haveExact, hclasses.exact, hrestrictions.exact]
    · simp [Json.depth, depthOfMembers]
      omega
    · simp [ofJson?, fields, List.lookup_cons, hclasses.read, hrestrictions.read]

/-- No two attributes of a class have one name, and each is the one given last, the Uid and the name counting as
given first. A schema is read from its text as it was. -/
theorem built_survives_text :
    (∀ (typeName : String) (given : List AttributeInfo),
      let start := ObjectClassInfo.of typeName
      let c := start.withAttributes given
      c.Distinct ∧ (c.attribute? uidName).isSome ∧ (c.attribute? nameName).isSome ∧
      ∀ name, c.attribute? name = (start.attributes ++ given).reverse.find? fun a => sameName a.name name) ∧
    ∀ provisions : List Provision, ∃ s : Schema,
      Coded.ofText? (Coded.text (ofProvisions provisions)) = some s ∧ s = ofProvisions provisions ∧
      (∀ c, s.objectClass? c =
        (provisions.filterMap Provision.objectClass?).find? fun info => c.isNamed info.typeName) ∧
      ∀ o c, s.supports o c =
        match provisions.reverse.findSome? (Provision.restriction? o) with
        | some names => names.any c.isNamed
        | none => (s.objectClass? c).isSome := by
  refine ⟨fun typeName given => ⟨?_, ?_, ?_, ?_⟩, fun provisions => ⟨ofProvisions provisions, ?_, rfl, ?_, ?_⟩⟩
  · exact (ObjectClassInfo.distinct_of typeName).withAttributes given
  · exact ObjectClassInfo.isSome_attribute?_built typeName given List.mem_cons_self
  · exact ObjectClassInfo.isSome_attribute?_built typeName given (.tail _ List.mem_cons_self)
  · exact ObjectClassInfo.attribute?_built typeName given
  · exact Coded.ofText?_text_of_tells ((ofProvisions provisions).tells (ordered_ofProvisions provisions)) (by decide)
  · intro c
    rw [objectClass?, objectClasses_ofProvisions]
  · intro o c
    exact supports_ofProvisions provisions o c

end Schema

end Provisioning
