import Provisioning.Proofs.Json.Text
import Provisioning.Proofs.Listing
import Provisioning.Wire.Filter

/-! JSON forms and back. Values, attributes, sets and filters are read from their JSON form as they were
before, with one exception: a number with a point is not followed through its text. -/

namespace Provisioning

open Json

namespace AttributeSet

theorem toOption_ofAttributes (attributes : List Attribute) :
    (ofAttributes attributes).toOption =
      if (firstRepeated? [] attributes).isNone then some (ofList attributes) else none := by
  rw [ofAttributes, ofDistinct]
  cases firstRepeated? [] attributes <;> rfl

end AttributeSet

/-! What the forms hold. -/

namespace Json

-- A record is read field by field, which comes down to looking up members.
attribute [simp] Fields.pure Fields.field Fields.required Fields.optional Fields.defaulted Fields.and Fields.repeats
  Fields.decode Decoder.text Decoder.truth

theorem areExact_iff (items : List Json) : areExact items = true ↔ ∀ j ∈ items, j.isExact = true := by
  induction items with
  | nil => simp [areExact]
  | cons j rest ih => simp [areExact, ih]

theorem depth_le_of_mem {j : Json} {items : List Json} (h : j ∈ items) : j.depth ≤ depthOfItems items := by
  induction items with
  | nil => cases h
  | cons k rest ih =>
    rw [depthOfItems]
    rcases List.mem_cons.1 h with rfl | h
    · omega
    · have := ih h
      omega

theorem depthOfItems_le {n : Nat} {items : List Json} (h : ∀ j ∈ items, j.depth ≤ n) :
    depthOfItems items ≤ n := by
  induction items with
  | nil => exact Nat.zero_le n
  | cons j rest ih =>
    have ⟨hj, hr⟩ := List.forall_mem_cons.1 h
    exact Nat.max_le.2 ⟨hj, ih hr⟩

mutual
theorem isReadable_of_isExact : ∀ j : Json, j.isExact = true → j.isReadable = true
  | .array items, h => areReadable_of_areExact items h
  | .object members, h => haveReadable_of_haveExact members h
  | .null, _ | .bool _, _ | .integer _, _ | .string _, _ => rfl

theorem areReadable_of_areExact : ∀ items : List Json, areExact items = true → areReadable items = true
  | [], _ => rfl
  | j :: rest, h => by
    simp only [areExact, areReadable, Bool.and_eq_true] at h ⊢
    exact ⟨isReadable_of_isExact j h.1, areReadable_of_areExact rest h.2⟩

theorem haveReadable_of_haveExact :
    ∀ members : List (String × Json), haveExact members = true → haveReadable members = true
  | [], _ => rfl
  | (_, j) :: rest, h => by
    simp only [haveExact, haveReadable, Bool.and_eq_true] at h ⊢
    exact ⟨isReadable_of_isExact j h.1, haveReadable_of_haveExact rest h.2⟩
end

theorem mapM_map {α β : Type} {write : α → β} {read? : β → Option α} {l : List α}
    (h : ∀ a ∈ l, read? (write a) = some a) : (l.map write).mapM read? = some l := by
  induction l with
  | nil => rfl
  | cons a rest ih =>
    have ⟨ha, hr⟩ := List.forall_mem_cons.1 h
    simp [List.mapM_cons, ha, ih hr]

end Json

/-! Values. -/

namespace Value

theorem uint8_ofNat (b : UInt8) : Decoder.uint8 (.integer b.toNat) = some b := by
  have hb := b.toNat_lt
  have h : Decoder.integerIn 0 256 (.integer b.toNat) = some (b.toNat : Int) := by
    rw [Decoder.integerIn, if_pos (by omega)]
  rw [Decoder.uint8, h]
  simp

theorem int64_ofInt (i : Int64) : Decoder.int64 (.integer i.toInt) = some i := by
  have hlo := i.le_toInt
  have hhi := i.toInt_lt
  have h : Decoder.integerIn (-0x8000000000000000) 0x8000000000000000 (.integer i.toInt) = some i.toInt := by
    rw [Decoder.integerIn, if_pos (by omega)]
  rw [Decoder.int64, h]
  simp

/-- A value is written without its kind, and the first kind that fits is the one that it had. -/
theorem ofJson?_toJson (v : Value) (h : v.isFloat = false) : ofJson? v.toJson = some v := by
  cases v with
  | null => rfl
  | string s => rfl
  | boolean b => rfl
  | integer i => simp [toJson, ofJson?, int64_ofInt]
  | float x => simp [isFloat] at h
  | binary bytes => simp [toJson, ofJson?, Decoder.list, mapM_map fun b _ => uint8_ofNat b]

theorem isExact_toJson (v : Value) (h : v.isFloat = false) : v.toJson.isExact = true := by
  cases v with
  | null => rfl
  | string s => rfl
  | boolean b => rfl
  | integer i =>
    have hlo := i.le_toInt
    have hhi := i.toInt_lt
    simp [toJson, isExact, holds64]
    omega
  | float x => simp [isFloat] at h
  | binary bytes =>
    have hb : ∀ b ∈ bytes, isExact (.integer b.toNat) = true := by
      intro b _
      have := b.toNat_lt
      simp [isExact, holds64]
      omega
    rw [toJson, isExact, areExact_iff]
    simpa using hb

theorem depth_toJson (v : Value) : v.toJson.depth ≤ 1 := by
  cases v with
  | binary bytes =>
    have h : depthOfItems (bytes.map fun b => .integer b.toNat) ≤ 0 :=
      depthOfItems_le fun j hj => by
        obtain ⟨b, _, rfl⟩ := List.mem_map.1 hj
        exact Nat.le_refl 0
    rw [toJson, Json.depth]
    omega
  | _ => exact Nat.zero_le 1

end Value

/-! Attributes. -/

namespace Attribute

def Floatless (a : Attribute) : Prop := ∀ v ∈ a.values, v.isFloat = false

instance (a : Attribute) : Decidable a.Floatless :=
  inferInstanceAs (Decidable (∀ v ∈ a.values, v.isFloat = false))

theorem ofJson?_toJson (a : Attribute) (h : a.Floatless) : ofJson? a.toJson = some a := by
  obtain ⟨name, values?⟩ := a
  cases values? with
  | none => rfl
  | some vs =>
    have hv : (vs.map Value.toJson).mapM Value.ofJson? = some vs := mapM_map fun v hv => v.ofJson?_toJson (h v hv)
    simp [ofJson?, fields, toJson, List.lookup_cons, Decoder.nullable, Decoder.list, hv]

theorem isExact_toJson (a : Attribute) (h : a.Floatless) : a.toJson.isExact = true := by
  obtain ⟨name, values?⟩ := a
  cases values? with
  | none => rfl
  | some vs =>
    have hv : areExact (vs.map Value.toJson) = true := by
      rw [areExact_iff, List.forall_mem_map]
      exact fun v hv => v.isExact_toJson (h v hv)
    simp [toJson, isExact, haveExact, hv]

theorem depth_toJson (a : Attribute) : a.toJson.depth ≤ 3 := by
  obtain ⟨name, values?⟩ := a
  cases values? with
  | none => exact Nat.le_add_left 1 2
  | some vs =>
    have h : depthOfItems (vs.map Value.toJson) ≤ 1 :=
      depthOfItems_le (List.forall_mem_map.2 fun v _ => v.depth_toJson)
    simp [toJson, Json.depth, depthOfMembers]
    omega

end Attribute

/-! Sets. -/

namespace AttributeSet

def Floatless (s : AttributeSet) : Prop := ∀ a ∈ s.entries, a.Floatless

instance (s : AttributeSet) : Decidable s.Floatless := inferInstanceAs (Decidable (∀ a ∈ s.entries, a.Floatless))

theorem ofJson?_toJson (s : AttributeSet) (h : s.Floatless) : ofJson? s.toJson = some s := by
  have ha : (s.entries.map Attribute.toJson).mapM Attribute.ofJson? = some s.entries :=
    mapM_map fun a ha => a.ofJson?_toJson (h a ha)
  have hd : firstRepeated? [] s.entries = none :=
    (firstRepeated?_eq_none [] s.entries).2 ⟨s.distinct_entries, by simp⟩
  simp [ofJson?, toJson, Decoder.list, ha, toOption_ofAttributes, hd, ofList_entries]

theorem isExact_toJson (s : AttributeSet) (h : s.Floatless) : s.toJson.isExact = true := by
  rw [toJson, isExact, areExact_iff, List.forall_mem_map]
  exact fun a ha => a.isExact_toJson (h a ha)

theorem depth_toJson (s : AttributeSet) : s.toJson.depth ≤ 4 := by
  have h : depthOfItems (s.entries.map Attribute.toJson) ≤ 3 :=
    depthOfItems_le (List.forall_mem_map.2 fun a _ => a.depth_toJson)
  rw [toJson, Json.depth]
  omega

/-- A list of attributes is a set if and only if no name is in it twice. -/
theorem ofJson?_array {items : List Json} {attributes : List Attribute}
    (h : items.mapM Attribute.ofJson? = some attributes) (s : AttributeSet) :
    ofJson? (.array items) = some s ↔ Distinct attributes ∧ s = ofList attributes := by
  have hd : firstRepeated? [] attributes = none ↔ Distinct attributes := by
    simp [firstRepeated?_eq_none]
  rw [← hd]
  cases hr : firstRepeated? [] attributes with
  | none =>
    have he : s = ofList attributes ↔ ofList attributes = s := eq_comm
    simp [ofJson?, Decoder.list, h, toOption_ofAttributes, hr, he]
  | some a => simp [ofJson?, Decoder.list, h, toOption_ofAttributes, hr]

end AttributeSet

/-! Filters. -/

namespace Filter

def Floatless (f : Filter) : Prop := ∀ a ∈ f.leaves, a.Floatless

instance (f : Filter) : Decidable f.Floatless := inferInstanceAs (Decidable (∀ a ∈ f.leaves, a.Floatless))

theorem toJsonEach_eq (parts : List Filter) : toJsonEach parts = parts.map toJson := by
  induction parts with
  | nil => rfl
  | cons f rest ih => simp [toJsonEach, ih]

theorem Kind.ofText?_text (k : Kind) : Kind.ofText? k.text = some k := by
  cases k with
  | leaf c => cases c <;> rfl
  | all => rfl
  | any => rfl
  | not => rfl

theorem kindAndRest?_object (nested : Bool) (k : Kind) {name : String} (hn : name ≠ "op") (j : Json) :
    kindAndRest? nested (.object [("op", .string k.text), (name, j)]) = some (k, .object [(name, j)]) := by
  simp [kindAndRest?, hn, Kind.ofJson?, Kind.ofText?_text]

theorem floatless_of_mem {parts : List Filter} (h : ∀ a ∈ leavesOfEach parts, a.Floatless) {f : Filter}
    (hf : f ∈ parts) : f.Floatless := by
  rw [leavesOfEach_eq] at h
  exact fun a ha => h a (List.mem_flatMap.2 ⟨f, hf, ha⟩)

theorem depth_object (text name : String) (j : Json) :
    (Json.object [("op", .string text), (name, j)]).depth = j.depth + 1 := by
  simp [Json.depth, depthOfMembers]

theorem list_toJsonEach {parts : List Filter} {fuel : Nat}
    (ih : ∀ f ∈ parts, f.toJson.depth ≤ fuel → ofJsonWithin? true fuel f.toJson = some f)
    (hf : (Json.array (toJsonEach parts)).depth ≤ fuel) :
    Decoder.list (ofJsonWithin? true fuel) (.array (toJsonEach parts)) = some parts := by
  rw [toJsonEach_eq] at hf ⊢
  refine mapM_map fun f hmem => ih f hmem ?_
  have hle := depth_le_of_mem (List.mem_map_of_mem (f := toJson) hmem)
  rw [Json.depth] at hf
  omega

/-- The levels of a filter are at most those of its form, so that many are enough to read it. -/
theorem ofJsonWithin?_toJson (f : Filter) (h : f.Floatless) (nested : Bool) (fuel : Nat)
    (hf : f.toJson.depth ≤ fuel) : ofJsonWithin? nested fuel f.toJson = some f := by
  -- Each form has a level of its own, which the filter takes; the parts have to do with one less.
  induction f using Filter.induct generalizing nested fuel with
  | leaf c a =>
    rw [toJson, depth_object] at hf
    obtain ⟨fuel, rfl⟩ : ∃ n, fuel = n + 1 := ⟨fuel - 1, by omega⟩
    have hk := kindAndRest?_object nested (.leaf c) (by decide : "attribute" ≠ "op") a.toJson
    rw [Kind.text] at hk
    have ha := a.ofJson?_toJson (h a (by simp [leaves]))
    simp [ofJsonWithin?, toJson, hk, ha]
  | all parts ih =>
    rw [toJson, depth_object] at hf
    obtain ⟨fuel, rfl⟩ : ∃ n, fuel = n + 1 := ⟨fuel - 1, by omega⟩
    have hk := kindAndRest?_object nested .all (by decide : "filters" ≠ "op") (.array (toJsonEach parts))
    rw [Kind.text] at hk
    have hl := list_toJsonEach (fun f hmem => ih f hmem (floatless_of_mem h hmem) true fuel) (by omega)
    simp [ofJsonWithin?, toJson, hk, hl]
  | any parts ih =>
    rw [toJson, depth_object] at hf
    obtain ⟨fuel, rfl⟩ : ∃ n, fuel = n + 1 := ⟨fuel - 1, by omega⟩
    have hk := kindAndRest?_object nested .any (by decide : "filters" ≠ "op") (.array (toJsonEach parts))
    rw [Kind.text] at hk
    have hl := list_toJsonEach (fun f hmem => ih f hmem (floatless_of_mem h hmem) true fuel) (by omega)
    simp [ofJsonWithin?, toJson, hk, hl]
  | not f ih =>
    rw [toJson, depth_object] at hf
    obtain ⟨fuel, rfl⟩ : ∃ n, fuel = n + 1 := ⟨fuel - 1, by omega⟩
    have hk := kindAndRest?_object nested .not (by decide : "filter" ≠ "op") f.toJson
    rw [Kind.text] at hk
    have hp := ih h true fuel (by omega)
    simp [ofJsonWithin?, toJson, hk, hp]

theorem isExact_toJsonEach {parts : List Filter} (h : ∀ f ∈ parts, f.toJson.isExact = true) :
    areExact (toJsonEach parts) = true := by
  rw [toJsonEach_eq, areExact_iff, List.forall_mem_map]
  exact h

theorem isExact_toJson (f : Filter) (h : f.Floatless) : f.toJson.isExact = true := by
  induction f using Filter.induct with
  | leaf c a =>
    have ha := a.isExact_toJson (h a (by simp [leaves]))
    simp [toJson, isExact, haveExact, ha]
  | all parts ih =>
    have hp := isExact_toJsonEach fun f hmem => ih f hmem (floatless_of_mem h hmem)
    simp [toJson, isExact, haveExact, hp]
  | any parts ih =>
    have hp := isExact_toJsonEach fun f hmem => ih f hmem (floatless_of_mem h hmem)
    simp [toJson, isExact, haveExact, hp]
  | not f ih =>
    simp [toJson, isExact, haveExact, ih h]

theorem ofJson?_toJson (f : Filter) (h : f.Floatless) : ofJson? f.toJson = some f := by
  have hr := isReadable_of_isExact f.toJson (f.isExact_toJson h)
  rw [ofJson?, if_pos hr]
  exact f.ofJsonWithin?_toJson h false _ (Nat.le_refl _)

end Filter

/-! The text of filters and sets. -/

namespace Coded

variable {α : Type} [Coded α]

theorem ofText?_text {a : α} (hx : (toJson a).isExact = true) (hd : (toJson a).depth ≤ maxDepth)
    (h : ofJson? (toJson a) = some a) : ofText? (text a) = some a := by
  rw [ofText?, text, read?_write _ hx hd, Option.bind_some, h]

/-- Filters and sets without numbers with a point come back from their text as they were. A list of attributes is
the text of a set just if no two names are the same, and is then written again in the order of folded names. -/
theorem lossless :
    (∀ f : Filter, f.Floatless → f.toJson.depth ≤ maxDepth → ofText? (text f) = some f) ∧
    (∀ s : AttributeSet, s.Floatless → ofText? (text s) = some s) ∧
    ∀ (t : String) (items : List Json) (attributes : List Attribute), read? t = some (.array items) →
      items.mapM Attribute.ofJson? = some attributes →
      ((ofText? t : Option AttributeSet).isSome ↔ AttributeSet.Distinct attributes) ∧
      ∀ s : AttributeSet, ofText? t = some s → ∃ sorted : List Attribute,
        toJson s = .array (sorted.map Attribute.toJson) ∧ sorted.Perm attributes ∧
        sorted.Pairwise fun a b => foldCase a.name < foldCase b.name := by
  refine ⟨fun f h hd => ofText?_text (f.isExact_toJson h) hd (f.ofJson?_toJson h),
    fun s h => ofText?_text (s.isExact_toJson h) (Nat.le_trans s.depth_toJson (by decide)) (s.ofJson?_toJson h),
    fun t items attributes ht ha => ?_⟩
  have hset : ∀ s, (ofText? t : Option AttributeSet) = some s ↔
      AttributeSet.Distinct attributes ∧ s = .ofList attributes := by
    rw [ofText?, ht, Option.bind_some]
    exact AttributeSet.ofJson?_array ha
  refine ⟨?_, fun s hs => ?_⟩
  · rw [Option.isSome_iff_exists]
    exact ⟨fun ⟨s, hs⟩ => ((hset s).1 hs).1, fun hd => ⟨_, (hset _).2 ⟨hd, rfl⟩⟩⟩
  · obtain ⟨hd, rfl⟩ := (hset s).1 hs
    exact ⟨_, rfl, AttributeSet.entries_ofList hd, (AttributeSet.ofList attributes).sorted⟩

theorem lossless_team :
    let f : Filter := .all [.leaf .equals ⟨"Team", some [.string "red \"a\"", .null, .integer (-7)]⟩,
      .not (.any [.leaf .contains ⟨"mail", none⟩, .leaf .equals ⟨"photo", some [.binary [0, 255]]⟩])]
    let s := AttributeSet.ofList [⟨"Team", none⟩, ⟨"mail", some []⟩, ⟨"age", some [.integer 7, .boolean true]⟩]
    let items := [Json.object [("name", .string "Team"), ("values", .array [.string "red", .null])],
      .object [("name", .string "age")]]
    let attributes := [⟨"Team", some [.string "red", .null]⟩, ⟨"age", none⟩]
    f.Floatless ∧ f.toJson.depth ≤ maxDepth ∧ ofText? (text f) = some f ∧
    s.Floatless ∧ ofText? (text s) = some s ∧
    read? (Json.array items).write = some (.array items) ∧ items.mapM Attribute.ofJson? = some attributes ∧
    AttributeSet.Distinct attributes ∧ (ofText? (Json.array items).write : Option AttributeSet).isSome := by
  intro f s items attributes
  have hf : f.Floatless := by decide
  have hd : f.toJson.depth ≤ maxDepth := by decide
  have hs : s.Floatless := by decide
  have ht : read? (Json.array items).write = some (.array items) := read?_write _ (by decide) (by decide)
  have ha : items.mapM Attribute.ofJson? = some attributes := rfl
  have hdist : AttributeSet.Distinct attributes := by decide
  exact ⟨hf, hd, lossless.1 f hf hd, hs, lossless.2.1 s hs, ht, ha, hdist,
    (lossless.2.2 _ items _ ht ha).1.2 hdist⟩

end Coded

end Provisioning
