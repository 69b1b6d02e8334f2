import Provisioning.Attribute

/-! Sets of attributes: at most one attribute under each name, case aside, listed in the order of the
folded names. `get?_insert`, `get?_erase` and `ext_get?` describe a set by its lookups. -/

namespace Provisioning

structure AttributeSet where
  entries : List Attribute
  sorted : entries.Pairwise fun a b => a.key < b.key
deriving DecidableEq

namespace AttributeSet

def empty : AttributeSet := ⟨[], .nil⟩

instance : Inhabited AttributeSet := ⟨empty⟩

instance : EmptyCollection AttributeSet := ⟨empty⟩

/-- Puts an attribute in its place; one stored under the same key gives way. -/
def insertSorted (a : Attribute) : List Attribute → List Attribute
  | [] => [a]
  | b :: rest =>
    if a.key < b.key then a :: b :: rest
    else if a.key = b.key then a :: rest
    else b :: insertSorted a rest

theorem mem_insertSorted {a c : Attribute} {l : List Attribute} (h : c ∈ insertSorted a l) : c = a ∨ c ∈ l := by
  induction l with
  | nil => simpa [insertSorted] using h
  | cons b rest ih => grind [insertSorted]

theorem sorted_insertSorted (a : Attribute) {l : List Attribute}
    (h : l.Pairwise fun a b => a.key < b.key) : (insertSorted a l).Pairwise fun a b => a.key < b.key := by
  induction l with
  | nil => simp [insertSorted]
  | cons b rest ih =>
    have ⟨hb, hr⟩ := List.pairwise_cons.1 h
    unfold insertSorted
    split
    · next hab =>
      exact List.pairwise_cons.2 ⟨fun c hc => by
        rcases List.mem_cons.1 hc with rfl | hc
        · exact hab
        · exact String.lt_trans hab (hb c hc), h⟩
    · split
      · next he => exact List.pairwise_cons.2 ⟨fun c hc => he ▸ hb c hc, hr⟩
      · next hlt hne =>
        refine List.pairwise_cons.2 ⟨fun c hc => ?_, ih hr⟩
        rcases mem_insertSorted hc with rfl | hc
        · grind
        · exact hb c hc

def insert (s : AttributeSet) (a : Attribute) : AttributeSet :=
  ⟨insertSorted a s.entries, sorted_insertSorted a s.sorted⟩

/-- Puts an attribute in its place, and gives back the one that gave way. -/
def replaceSorted (a : Attribute) : List Attribute → Option Attribute × List Attribute
  | [] => (none, [a])
  | b :: rest =>
    if a.key < b.key then (none, a :: b :: rest)
    else if a.key = b.key then (some b, a :: rest)
    else
      let (replaced?, rest) := replaceSorted a rest
      (replaced?, b :: rest)

theorem snd_replaceSorted (a : Attribute) (l : List Attribute) : (replaceSorted a l).2 = insertSorted a l := by
  induction l with
  | nil => rfl
  | cons b rest ih => grind [replaceSorted, insertSorted]

/-- Inserts an attribute, and gives back the one that was stored under its name. -/
def getThenInsert? (s : AttributeSet) (a : Attribute) : Option Attribute × AttributeSet :=
  ((replaceSorted a s.entries).1,
    ⟨(replaceSorted a s.entries).2, snd_replaceSorted a s.entries ▸ sorted_insertSorted a s.sorted⟩)

/-- Takes out what is stored under a key. -/
def takeSorted (key : String) : List Attribute → Option Attribute × List Attribute
  | [] => (none, [])
  | b :: rest =>
    if b.key = key then (some b, rest)
    else
      let (taken?, rest) := takeSorted key rest
      (taken?, b :: rest)

theorem sublist_takeSorted (key : String) (l : List Attribute) : (takeSorted key l).2.Sublist l := by
  induction l with
  | nil => exact .slnil
  | cons b rest ih =>
    unfold takeSorted
    split
    · exact List.sublist_cons_self b rest
    · exact ih.cons_cons b

/-- Erases the attribute under a name, and gives it back. -/
def getThenErase? (s : AttributeSet) (name : String) : Option Attribute × AttributeSet :=
  ((takeSorted (foldCase name) s.entries).1,
    ⟨(takeSorted (foldCase name) s.entries).2, s.sorted.sublist (sublist_takeSorted _ s.entries)⟩)

/-- The attribute under a name. -/
def get? (s : AttributeSet) (name : String) : Option Attribute :=
  s.entries.find? fun a => a.key = foldCase name

def contains (s : AttributeSet) (name : String) : Bool := (s.get? name).isSome

def erase (s : AttributeSet) (name : String) : AttributeSet :=
  ⟨s.entries.filter fun a => a.key ≠ foldCase name, s.sorted.filter _⟩

def toList (s : AttributeSet) : List Attribute := s.entries

def size (s : AttributeSet) : Nat := s.entries.length

def isEmpty (s : AttributeSet) : Bool := s.entries.isEmpty

def names (s : AttributeSet) : List String := s.entries.map Attribute.name

/-- Collects attributes; a later one replaces an earlier one of the same name. -/
def ofList (attributes : List Attribute) : AttributeSet := attributes.foldl insert empty

/-- The first attribute that repeats the name of an earlier one. -/
def firstRepeated? : List Attribute → List Attribute → Option Attribute
  | _, [] => none
  | seen, a :: rest => if seen.any (·.key == a.key) then some a else firstRepeated? (a :: seen) rest

/-- Collects attributes whose names are all different; otherwise names the first that repeats. -/
def ofDistinct (attributes : List Attribute) : Except Attribute AttributeSet :=
  match firstRepeated? [] attributes with
  | some a => .error a
  | none => .ok (ofList attributes)

/-- Changes every attribute, in order; of two that end up under one name the later stays. -/
def map (s : AttributeSet) (f : Attribute → Attribute) : AttributeSet := ofList (s.entries.map f)

def uid? (s : AttributeSet) : Option Uid := (s.get? uidName).bind Attribute.uid?

def name? (s : AttributeSet) : Option Name :=
  (s.get? nameName).bind fun a => a.singleString?.map Name.mk

/-- Sets agree when their attributes agree one by one. -/
def agrees (s t : AttributeSet) : Bool := s.entries == t.entries

instance : BEq AttributeSet := ⟨agrees⟩

theorem find?_insertSorted (a : Attribute) (l : List Attribute) (k : String) :
    l.Pairwise (fun a b => a.key < b.key) →
    (insertSorted a l).find? (fun b => b.key = k) = if a.key = k then some a else l.find? fun b => b.key = k := by
  induction l with
  | nil => simp [insertSorted, List.find?]
  | cons b rest ih =>
    intro h
    have ⟨hb, hr⟩ := List.pairwise_cons.1 h
    unfold insertSorted
    split
    · simp only [List.find?_cons]; grind
    · split
      · simp only [List.find?_cons]
        grind
      · simp only [List.find?_cons, ih hr]
        grind

@[simp] theorem get?_empty (name : String) : empty.get? name = none := rfl

theorem get?_insert (s : AttributeSet) (a : Attribute) (name : String) :
    (s.insert a).get? name = if a.isNamed name then some a else s.get? name := by
  simp only [get?, insert, find?_insertSorted a s.entries _ s.sorted, Attribute.isNamed_iff]

theorem get?_erase (s : AttributeSet) (erased name : String) :
    (s.erase erased).get? name = if sameName erased name then none else s.get? name := by
  simp only [get?, erase, List.find?_filter, sameName_iff]
  split
  · next h => simp [h]
  · next h =>
    congr 1
    funext a
    grind

theorem key_eq_of_get? {s : AttributeSet} {name : String} {a : Attribute} (h : s.get? name = some a) :
    a.key = foldCase name := by
  simpa using List.find?_some h

theorem mem_of_get? {s : AttributeSet} {name : String} {a : Attribute} (h : s.get? name = some a) :
    a ∈ s.entries := List.mem_of_find?_eq_some h

theorem get?_of_mem {s : AttributeSet} {a : Attribute} (h : a ∈ s.entries) {name : String}
    (hn : a.isNamed name = true) : s.get? name = some a := by
  have hk := (a.isNamed_iff name).1 hn
  obtain ⟨entries, sorted⟩ := s
  simp only [get?] at *
  induction entries with
  | nil => cases h
  | cons b rest ih =>
    have ⟨hb, hr⟩ := List.pairwise_cons.1 sorted
    rw [List.find?_cons]
    rcases List.mem_cons.1 h with rfl | h
    · simp [hk]
    · have := hb a h
      have hne : b.key ≠ foldCase name := by rw [← hk]; intro e; exact String.lt_irrefl _ (e ▸ this)
      simp [hne, ih hr h]

/-- A set is determined by its lookups. -/
theorem ext_get? {s t : AttributeSet} (h : ∀ name, s.get? name = t.get? name) : s = t := by
  have mem : ∀ {s t : AttributeSet}, (∀ name, s.get? name = t.get? name) → ∀ a ∈ s.entries, a ∈ t.entries := by
    intro s t h a ha
    have : s.get? a.name = some a := get?_of_mem ha (sameName_refl _)
    exact mem_of_get? (h a.name ▸ this)
  obtain ⟨l, hl⟩ := s
  obtain ⟨m, hm⟩ := t
  have h1 := mem h
  have h2 := mem fun name => (h name).symm
  simp only at h1 h2
  congr 1
  clear h mem
  induction l generalizing m with
  | nil =>
    cases m with
    | nil => rfl
    | cons b _ => exact absurd (h2 b List.mem_cons_self) List.not_mem_nil
  | cons a l ih =>
    cases m with
    | nil => exact absurd (h1 a List.mem_cons_self) List.not_mem_nil
    | cons b m =>
      have ⟨ha, hl'⟩ := List.pairwise_cons.1 hl
      have ⟨hb, hm'⟩ := List.pairwise_cons.1 hm
      have hab : a = b := by
        rcases List.mem_cons.1 (h1 a List.mem_cons_self) with e | hma
        · exact e
        · rcases List.mem_cons.1 (h2 b List.mem_cons_self) with e | hlb
          · exact e.symm
          · exact absurd (String.lt_trans (ha b hlb) (hb a hma)) (String.lt_irrefl _)
      subst hab
      congr 1
      refine ih hl' m hm' (fun c hc => ?_) (fun c hc => ?_)
      · rcases List.mem_cons.1 (h1 c (List.mem_cons_of_mem _ hc)) with e | h
        · exact absurd (ha c hc) (e ▸ String.lt_irrefl _)
        · exact h
      · rcases List.mem_cons.1 (h2 c (List.mem_cons_of_mem _ hc)) with e | h
        · exact absurd (hb c hc) (e ▸ String.lt_irrefl _)
        · exact h

end AttributeSet

end Provisioning
