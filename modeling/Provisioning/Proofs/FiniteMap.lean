import Mathlib.Data.List.Dedup
import Provisioning.Proofs.Listing

/-! Sets as finite maps. Whatever is done to a set, it stays in step with a sorted map from texts to attributes to which
the same is done, each attribute being put under its folded name. So what is stored is found under the names that fold
to its own, and under no others, and lists come in the order of the folded names: `edited_is_finite_map`. -/

namespace Provisioning

/-- What is done to a set. None of its attributes occurs twice, so whatever is made of them one after the other
is a function of them. -/
inductive Edit where
  | insert (a : Attribute)
  | erase (name : String)
  | map (f : Attribute → Attribute)
  | collect (attributes : List Attribute)
  | collectDistinct (attributes : List Attribute)

namespace AttributeSet

def edit (s : AttributeSet) : Edit → AttributeSet
  | .insert a => (s.getThenInsert? a).2
  | .erase name => (s.getThenErase? name).2
  | .map f => s.map f
  | .collect attributes => ofList attributes
  | .collectDistinct attributes =>
    match ofAttributes attributes with
    | .ok t => t
    | .error _ => s

def edited (edits : List Edit) : AttributeSet := edits.foldl edit empty

theorem fst_replaceSorted (a : Attribute) {l : List Attribute} (h : l.Pairwise fun a b => a.key < b.key) :
    (replaceSorted a l).1 = l.find? fun b => b.key = a.key := by
  induction l with
  | nil => rfl
  | cons b rest ih =>
    have ⟨hb, hrest⟩ := List.pairwise_cons.1 h
    unfold replaceSorted
    split
    · next hlt =>
      -- the keys grow along the list, so one below the first is nowhere in it
      have hnone : ∀ c ∈ b :: rest, c.key ≠ a.key := by
        intro c hc hkey
        rcases List.mem_cons.1 hc with rfl | hc
        · exact String.lt_irrefl _ (hkey ▸ hlt)
        · exact String.lt_irrefl _ (String.lt_trans (hkey ▸ hlt) (hb c hc))
      exact (List.find?_eq_none.2 (by simpa using hnone)).symm
    · split
      · next heq => simp [heq]
      · next hne => simp [ih hrest, Ne.symm hne]

theorem takeSorted_eq (key : String) {l : List Attribute} (h : l.Pairwise fun a b => a.key < b.key) :
    takeSorted key l = (l.find? fun b => b.key = key, l.filter fun b => b.key ≠ key) := by
  induction l with
  | nil => rfl
  | cons b rest ih =>
    have ⟨hb, hrest⟩ := List.pairwise_cons.1 h
    unfold takeSorted
    split
    · next heq =>
      have hothers : ∀ c ∈ rest, c.key ≠ key := by
        intro c hc hkey
        have hlt := hb c hc
        rw [heq, hkey] at hlt
        exact String.lt_irrefl key hlt
      have hrest : rest.filter (fun b => b.key ≠ key) = rest := List.filter_eq_self.2 (by simpa using hothers)
      rw [List.find?_cons_of_pos (by simpa using heq), List.filter_cons_of_neg (by simpa using heq), hrest]
    · next hne => simp [ih hrest, hne]

theorem getThenInsert?_eq (s : AttributeSet) (a : Attribute) : s.getThenInsert? a = (s.get? a.name, s.insert a) := by
  simp only [getThenInsert?, insert, snd_replaceSorted, fst_replaceSorted a s.sorted]
  rfl

theorem getThenErase?_eq (s : AttributeSet) (name : String) :
    s.getThenErase? name = (s.get? name, s.erase name) := by
  simp only [getThenErase?, takeSorted_eq _ s.sorted, get?, erase]

theorem toList_erase (s : AttributeSet) (name : String) :
    (s.erase name).toList = s.toList.filter fun a => !a.isNamed name := by
  refine List.filter_congr fun a _ => ?_
  rw [Bool.eq_iff_iff, decide_eq_true_iff, Bool.not_eq_true', Ne, ← a.isNamed_iff, Bool.not_eq_true]

theorem increasing_names (s : AttributeSet) : (s.names.map foldCase).Pairwise (· < ·) := by
  rw [names, List.map_map]
  exact List.pairwise_map.2 s.sorted

theorem nodup_names (s : AttributeSet) : (s.names.map foldCase).Nodup := by
  refine s.increasing_names.imp fun {x y} hlt => ?_
  rintro rfl
  exact String.lt_irrefl x hlt

theorem ofAttributes_isError_iff {attributes : List Attribute} :
    (∃ e, ofAttributes attributes = .error e) ↔
      ∃ (i j : Nat) (_ : i < j) (_ : j < attributes.length),
        sameName attributes[i].name attributes[j].name = true := by
  have hok : (∃ e, ofAttributes attributes = .error e) ↔ ¬ Distinct attributes := by
    cases h : ofAttributes attributes with
    | ok s => simp [(ofAttributes_eq_ok_iff.1 h).1]
    | error e =>
      have hne : ¬ Distinct attributes := fun hd => by
        rw [ofAttributes_eq_ok_iff.2 ⟨hd, rfl⟩] at h
        cases h
      simp [hne]
  rw [hok, Distinct, List.pairwise_iff_getElem]
  push Not
  constructor
  · rintro ⟨i, j, _, hj, hij, h⟩
    exact ⟨i, j, hij, hj, by simpa using h⟩
  · rintro ⟨i, j, hij, hj, h⟩
    exact ⟨i, j, Nat.lt_trans hij hj, hj, hij, by simpa using h⟩

theorem mem_names_ofList {attributes : List Attribute} {key : String} :
    key ∈ (ofList attributes).names.map foldCase ↔ key ∈ attributes.map Attribute.key := by
  have hget (name : String) : (ofList attributes).get? name = attributes.reverse.find? fun a => a.isNamed name := by
    rw [ofList, get?_foldl_insert, get?_empty, Option.or_none]
  rw [names, List.map_map, List.mem_map, List.mem_map]
  constructor
  · rintro ⟨a, ha, rfl⟩
    have hfound := (hget a.name).symm.trans (get?_of_mem ha (sameName_refl a.name))
    exact ⟨a, List.mem_reverse.1 (List.mem_of_find?_eq_some hfound), rfl⟩
  · rintro ⟨a, ha, rfl⟩
    have hsome : (attributes.reverse.find? fun b => b.isNamed a.name).isSome :=
      List.find?_isSome.2 ⟨a, List.mem_reverse.2 ha, sameName_refl a.name⟩
    obtain ⟨b, hb⟩ := Option.isSome_iff_exists.1 hsome
    exact ⟨b, mem_of_get? ((hget a.name).trans hb), key_eq_of_get? ((hget a.name).trans hb)⟩

theorem size_ofList (attributes : List Attribute) :
    (ofList attributes).size = (attributes.map Attribute.key).dedup.length := by
  have hperm : ((ofList attributes).names.map foldCase).Perm (attributes.map Attribute.key).dedup :=
    (List.perm_ext_iff_of_nodup (nodup_names _) (List.nodup_dedup _)).2 fun key => by
      rw [mem_names_ofList, List.mem_dedup]
  rw [← hperm.length_eq, size, names, List.length_map, List.length_map]

end AttributeSet

abbrev Keyed := Std.TreeMap String Attribute

namespace Keyed

def put (t : Keyed) (a : Attribute) : Keyed := t.insert (foldCase a.name) a

def drop (t : Keyed) (name : String) : Keyed := t.erase (foldCase name)

/-- Puts attributes one by one, up to the first for which the place is taken. -/
def putDistinct (t : Keyed) : List Attribute → Except Attribute Keyed
  | [] => .ok t
  | a :: rest => if t.contains (foldCase a.name) then .error a else (t.put a).putDistinct rest

def edit (t : Keyed) : Edit → Keyed
  | .insert a => t.put a
  | .erase name => t.drop name
  | .map f => ((t.toList.map (·.2)).map f).foldl put ∅
  | .collect attributes => attributes.foldl put ∅
  | .collectDistinct attributes =>
    match putDistinct ∅ attributes with
    | .ok u => u
    | .error _ => t

def edited (edits : List Edit) : Keyed := edits.foldl edit ∅

/-- The map holds what the set holds, each attribute under its key. -/
def Mirrors (t : Keyed) (s : AttributeSet) : Prop := ∀ key, t[key]? = s.entries.find? fun a => a.key = key

variable {t : Keyed} {s : AttributeSet}

theorem mirrors_empty : Mirrors ∅ .empty := fun _ => rfl

theorem Mirrors.put (h : t.Mirrors s) (a : Attribute) : (t.put a).Mirrors (s.insert a) := by
  intro key
  have hcompare : compare (foldCase a.name) key = .eq ↔ a.key = key := Std.LawfulEqOrd.compare_eq_iff_eq
  have hstored : (s.insert a).entries.find? (fun b => b.key = key) =
      if a.key = key then some a else s.entries.find? fun b => b.key = key :=
    AttributeSet.find?_insertSorted a s.entries key s.sorted
  rw [Keyed.put, Std.TreeMap.getElem?_insert, h key, hstored]
  simp only [hcompare]

theorem Mirrors.putAll (h : t.Mirrors s) (attributes : List Attribute) :
    (attributes.foldl Keyed.put t).Mirrors (attributes.foldl .insert s) := by
  induction attributes generalizing t s with
  | nil => exact h
  | cons a rest ih => exact ih (h.put a)

theorem Mirrors.drop (h : t.Mirrors s) (name : String) : (t.drop name).Mirrors (s.erase name) := by
  intro key
  have hcompare : compare (foldCase name) key = .eq ↔ foldCase name = key := Std.LawfulEqOrd.compare_eq_iff_eq
  rw [Keyed.drop, Std.TreeMap.getElem?_erase, h key, AttributeSet.erase, List.find?_filter]
  by_cases hkey : foldCase name = key
  · subst hkey
    rw [if_pos (hcompare.2 rfl)]
    exact (List.find?_eq_none.2 (by simp)).symm
  · rw [if_neg (mt hcompare.1 hkey)]
    refine congrArg (s.entries.find? ·) (funext fun a => ?_)
    grind

theorem Mirrors.getElem?_eq_some_iff (h : t.Mirrors s) {key : String} {a : Attribute} :
    t[key]? = some a ↔ a ∈ s.entries ∧ a.key = key := by
  rw [h key]
  constructor
  · intro hfound
    exact ⟨List.mem_of_find?_eq_some hfound, by simpa using List.find?_some hfound⟩
  · rintro ⟨ha, rfl⟩
    exact AttributeSet.get?_of_mem ha (sameName_refl a.name)

theorem Mirrors.toList_eq (h : t.Mirrors s) : t.toList = s.entries.map fun a => (a.key, a) := by
  have hleft : t.toList.Pairwise fun x y => x.1 < y.1 :=
    (Std.TreeMap.ordered_keys_toList (t := t)).imp fun hlt => compareOfLessAndEq_eq_lt.1 hlt
  have hright : (s.entries.map fun a => (a.key, a)).Pairwise fun x y => x.1 < y.1 :=
    List.pairwise_map.2 s.sorted
  have hmem : ∀ x, x ∈ t.toList ↔ x ∈ s.entries.map fun a => (a.key, a) := by
    rintro ⟨key, a⟩
    rw [Std.TreeMap.mem_toList_iff_getElem?_eq_some, h.getElem?_eq_some_iff, List.mem_map]
    constructor
    · rintro ⟨ha, rfl⟩
      exact ⟨a, ha, rfl⟩
    · rintro ⟨b, hb, hpair⟩
      cases hpair
      exact ⟨hb, rfl⟩
  have hnodup {l : List (String × Attribute)} (hl : l.Pairwise fun x y => x.1 < y.1) : l.Nodup := by
    refine hl.imp fun {x y} hlt => ?_
    rintro rfl
    exact String.lt_irrefl _ hlt
  -- both lists are sorted, so having the same members they are one list
  have hperm := (List.perm_ext_iff_of_nodup (hnodup hleft) (hnodup hright)).2 hmem
  exact hperm.eq_of_pairwise
    (fun x y _ _ hxy hyx => absurd (String.lt_trans hxy hyx) (String.lt_irrefl _)) hleft hright

/-- Attributes are put one by one exactly up to the first that repeats a name. -/
theorem putDistinct_eq {seen : List Attribute} (hseen : ∀ key, t.contains key = seen.any (·.key == key))
    (attributes : List Attribute) :
    t.putDistinct attributes =
      match AttributeSet.firstRepeated? seen attributes with
      | some a => .error a
      | none => .ok (attributes.foldl put t) := by
  induction attributes generalizing t seen with
  | nil => rfl
  | cons a rest ih =>
    rw [putDistinct, AttributeSet.firstRepeated?, show foldCase a.name = a.key from rfl, hseen]
    split
    · rfl
    · refine ih fun key => ?_
      have hcompare : (compare (foldCase a.name) key == .eq) = (a.key == key) := by
        rw [Bool.eq_iff_iff, beq_iff_eq, beq_iff_eq]
        exact Std.LawfulEqOrd.compare_eq_iff_eq
      rw [put, Std.TreeMap.contains_insert, hseen, List.any_cons, hcompare]

/-- What is done to both keeps them in step. -/
theorem Mirrors.edit (h : t.Mirrors s) (e : Edit) : (t.edit e).Mirrors (s.edit e) := by
  cases e with
  | insert a =>
    rw [Keyed.edit, AttributeSet.edit, AttributeSet.getThenInsert?_eq]
    exact h.put a
  | erase name =>
    rw [Keyed.edit, AttributeSet.edit, AttributeSet.getThenErase?_eq]
    exact h.drop name
  | map f =>
    have hlisted : t.toList.map (·.2) = s.entries := by simp [h.toList_eq, Function.comp_def]
    rw [Keyed.edit, hlisted]
    exact mirrors_empty.putAll (s.entries.map f)
  | collect attributes => exact mirrors_empty.putAll attributes
  | collectDistinct attributes =>
    have hnothing (key : String) : (∅ : Keyed).contains key = ([] : List Attribute).any (·.key == key) := rfl
    have hput := putDistinct_eq hnothing attributes
    rw [Keyed.edit, AttributeSet.edit, AttributeSet.ofAttributes, AttributeSet.ofDistinct, hput]
    cases AttributeSet.firstRepeated? [] attributes with
    | none => exact mirrors_empty.putAll attributes
    | some a => exact h

theorem Mirrors.edits (h : t.Mirrors s) (edits : List Edit) :
    (edits.foldl Keyed.edit t).Mirrors (edits.foldl .edit s) := by
  induction edits generalizing t s with
  | nil => exact h
  | cons e rest ih => exact ih (h.edit e)

end Keyed

namespace AttributeSet

/-- A set is a finite map on folded names: whatever is done to it and to a sorted map, they hold the same. What
is found, erased or replaced is the one attribute that goes by the name. -/
theorem edited_is_finite_map (edits : List Edit) :
    (Keyed.edited edits).toList = (edited edits).toList.map (fun a => (foldCase a.name, a)) ∧
    ((edited edits).names.map foldCase).Pairwise (· < ·) ∧
    (∀ name, (∀ a, (edited edits).get? name = some a ↔ a ∈ (edited edits).toList ∧ a.isNamed name = true) ∧
      ((edited edits).contains name = true ↔ ∃ a ∈ (edited edits).toList, a.isNamed name = true) ∧
      ((edited edits).getThenErase? name).1 = (edited edits).get? name ∧
      ((edited edits).getThenErase? name).2.toList = (edited edits).toList.filter fun a => !a.isNamed name) ∧
    (∀ a, ((edited edits).getThenInsert? a).1 = (edited edits).get? a.name ∧
      ∀ name, ((edited edits).getThenInsert? a).2.get? name =
        if a.isNamed name then some a else (edited edits).get? name) ∧
    (edited edits).size = ((edited edits).names.map foldCase).dedup.length ∧
    ofAttributes (edited edits).toList = .ok (edited edits) ∧
    ∀ attributes : List Attribute,
      ((∃ e, ofAttributes attributes = .error e) ↔
        ∃ (i j : Nat) (_ : i < j) (_ : j < attributes.length),
          sameName attributes[i].name attributes[j].name = true) ∧
      (∀ e, ofAttributes attributes = .error e ↔
        ∃ before a after, attributes = before ++ a :: after ∧ Distinct before ∧
          (∃ b ∈ before, sameName b.name a.name = true) ∧ e = .invalidArgument (.duplicateAttribute a.name)) ∧
      (∀ s, ofAttributes attributes = .ok s → s = ofList attributes) ∧
      (ofList attributes).size = (attributes.map fun a => foldCase a.name).dedup.length := by
  refine ⟨(Keyed.mirrors_empty.edits edits).toList_eq, increasing_names _,
    fun name => ⟨fun a => get?_eq_some_iff, contains_iff, ?erased⟩, fun a => ?inserted, ?counted,
    ofAttributes_eq_ok_iff.2 ⟨distinct_entries _, (ofList_entries _).symm⟩, fun attributes =>
      ⟨?refused, fun e => ofAttributes_eq_error_iff, fun s h => (ofAttributes_eq_ok_iff.1 h).2,
        size_ofList attributes⟩⟩
  case erased =>
    rw [getThenErase?_eq]
    exact ⟨rfl, toList_erase _ name⟩
  case inserted =>
    rw [getThenInsert?_eq]
    exact ⟨rfl, get?_insert _ a⟩
  case counted =>
    rw [List.dedup_eq_self.2 (nodup_names _), List.length_map, names, List.length_map]
    rfl
  case refused => exact ofAttributes_isError_iff

/-- Of attributes that are renamed into one another, the one that was listed last stays. -/
example :
    (edited [.insert (.single "team" (.string "red")), .insert (.single "Mail" (.string "ann@x")),
      .map fun a => ⟨"both", a.values?⟩]).toList = [.single "both" (.string "red")] := by decide

end AttributeSet

end Provisioning
