import Provisioning.Json.Reader
import Provisioning.Json.Writer

/-! Text and back. What is written of a value that a text tells exactly is read as that value again,
whatever follows it. -/

namespace Provisioning.Json

/-! Texts between quotes. -/

theorem hexDigit?_hexChar : ∀ n < 16, hexDigit? (hexChar n) = some n := by decide

theorem readUnits_plain {c : Char} {cs rest : List Char} {units : List Nat} (hq : c ≠ '"') (hb : c ≠ '\\')
    (hc : ¬c.toNat < 0x20) (h : readUnits cs = some (units, rest)) :
    readUnits (c :: cs) = some (c.toNat :: units, rest) := by
  rw [readUnits]
  · simp [hc, h]
  all_goals simp_all

theorem readUnits_escape {cs rest : List Char} {units : List Nat} (c : Char)
    (h : readUnits cs = some (units, rest)) : readUnits (escape c ++ cs) = some (c.toNat :: units, rest) := by
  unfold escape
  split
  case h_1 => simp [readUnits, escaped?, h]
  case h_2 => simp [readUnits, escaped?, h]
  case h_3 => simp [readUnits, escaped?, h]
  case h_4 => simp [readUnits, escaped?, h]
  case h_5 => simp [readUnits, escaped?, h]
  case h_6 hq hb _ _ _ =>
    split
    · next h8 => simp [readUnits, escaped?, h, h8]
    split
    · next hc => simp [readUnits, escaped?, h, hc]
    split
    · next h20 =>
      simp [readUnits, h, hexDigit?_hexChar (c.toNat / 16) (by omega), hexDigit?_hexChar (c.toNat % 16) (by omega),
        show hexDigit? '0' = some 0 from rfl]
      omega
    · next h20 => exact readUnits_plain hq hb h20 h

theorem not_surrogate (c : Char) : ¬(0xD800 ≤ c.toNat ∧ c.toNat < 0xE000) := by
  have := c.valid
  simp only [UInt32.isValidChar, Nat.isValidChar] at this
  simp only [Char.toNat]
  omega

theorem joinPairs?_toNat : ∀ cs : List Char, joinPairs? (cs.map Char.toNat) = some cs
  | [] => rfl
  | [c] => by simp [joinPairs?, not_surrogate]
  | c :: d :: rest => by
    have hc := not_surrogate c
    have ih := joinPairs?_toNat (d :: rest)
    simp only [List.map_cons] at ih ⊢
    -- No unit is a half, so none is joined with the next.
    rw [joinPairs?, if_neg (by omega), if_neg (by omega), ih]
    simp

theorem readUnits_quoted (cs rest : List Char) :
    readUnits (cs.flatMap escape ++ '"' :: rest) = some (cs.map Char.toNat, rest) := by
  induction cs with
  | nil => simp [readUnits]
  | cons c cs ih =>
    rw [List.flatMap_cons, List.append_assoc]
    exact readUnits_escape c ih

theorem readText_quoted (s : String) (rest : List Char) :
    readText (s.toList.flatMap escape ++ '"' :: rest) = some (some s, rest) := by
  simp [readText, readUnits_quoted, joinPairs?_toNat]

/-! Integers. -/

def EndsNumber (cs : List Char) : Prop := ∀ c ∈ cs.head?, c.isDigit = false ∧ c ≠ '.' ∧ c ≠ 'e' ∧ c ≠ 'E'

theorem endsNumber_cons {c : Char} {cs : List Char} (h : c.isDigit = false ∧ c ≠ '.' ∧ c ≠ 'e' ∧ c ≠ 'E') :
    EndsNumber (c :: cs) := by
  intro d hd
  cases hd
  exact h

theorem readDigits_append {ds rest : List Char} (hne : ds ≠ []) (hd : ∀ c ∈ ds, c.isDigit = true)
    (hr : EndsNumber rest) : readDigits (ds ++ rest) = some (digitsOf ds, rest) := by
  have hnone : rest.takeWhile Char.isDigit = [] ∧ rest.dropWhile Char.isDigit = rest := by
    cases rest with
    | nil => simp
    | cons c cs => simp [(hr c rfl).1]
  rw [readDigits, List.takeWhile_append_of_pos hd, List.dropWhile_append_of_pos hd, hnone.1, hnone.2,
    List.append_nil]
  cases ds with
  | nil => exact absurd rfl hne
  | cons d ds => rfl

theorem head?_toDigits (n : Nat) (h : 0 < n) : ∀ c ∈ (Nat.toDigits 10 n).head?, c ≠ '0' := by
  induction n using Nat.strongRecOn with
  | ind n ih =>
    by_cases hn : n < 10
    · rw [Nat.toDigits_of_lt_base hn]
      have hc : ∀ n < 10, 0 < n → n.digitChar ≠ '0' := by decide
      simpa using hc n hn h
    · rw [Nat.toDigits_of_base_le (by omega) (by omega), List.head?_append,
        List.head?_eq_some_head Nat.toDigits_ne_nil, Option.some_or, ← List.head?_eq_some_head]
      exact ih (n / 10) (by omega) (by omega)

theorem isDigit_toDigits (n : Nat) : ∀ c ∈ Nat.toDigits 10 n, c.isDigit = true :=
  fun _ h => Nat.isDigit_of_mem_toDigits (by omega) (by omega) h

theorem toDigits_append_ne (n : Nat) {c : Char} (hc : c.isDigit = false) {rest cs : List Char} :
    Nat.toDigits 10 n ++ rest ≠ c :: cs := by
  intro h
  have hd := isDigit_toDigits n
  cases hds : Nat.toDigits 10 n with
  | nil => exact absurd hds Nat.toDigits_ne_nil
  | cons d ds =>
    rw [hds] at h hd
    cases h
    simp [hd c] at hc

/-- A zero stands in front of no other digit. -/
theorem readWhole_toDigits (n : Nat) {rest : List Char} (hr : EndsNumber rest) :
    readWhole (Nat.toDigits 10 n ++ rest) = some (digitsOf (Nat.toDigits 10 n), rest) := by
  rcases Nat.eq_zero_or_pos n with rfl | hn
  · rfl
  · have hd := readDigits_append Nat.toDigits_ne_nil (isDigit_toDigits n) hr
    have hz := head?_toDigits n hn
    cases hds : Nat.toDigits 10 n with
    | nil => exact absurd hds Nat.toDigits_ne_nil
    | cons d ds =>
      rw [hds] at hd hz
      rw [List.cons_append, readWhole]
      · exact hd
      · rintro _ ⟨⟩
        exact absurd rfl (hz '0' rfl)

theorem le_ofDigitChars (ds : List Char) (n : Nat) : n ≤ Nat.ofDigitChars 10 ds n := by
  induction ds generalizing n with
  | nil => exact Nat.le_refl n
  | cons d ds ih =>
    rw [Nat.ofDigitChars_cons]
    exact Nat.le_trans (by omega) (ih _)

theorem takeDigits_digitsOf (ds : List Char) (n : Nat) (h : Nat.ofDigitChars 10 ds n < 0x10000000000000000) :
    takeDigits n (digitsOf ds) = (Nat.ofDigitChars 10 ds n, []) := by
  induction ds generalizing n with
  | nil => rfl
  | cons d ds ih =>
    rw [Nat.ofDigitChars_cons, Nat.mul_comm] at h ⊢
    have hle := le_ofDigitChars ds (n * 10 + (d.toNat - '0'.toNat))
    rw [digitsOf, List.map_cons, takeDigits, if_pos (by omega)]
    exact ih _ h

theorem value_toDigits (n : Nat) (negative : Bool) (h : n < 0x10000000000000000)
    (hn : negative = true → 0 < n ∧ n ≤ 0x8000000000000000) :
    NumberText.value { negative, whole := digitsOf (Nat.toDigits 10 n) } =
      .integer (if negative then -(n : Int) else n) := by
  have ht := takeDigits_digitsOf (Nat.toDigits 10 n) 0 (by rwa [Nat.ofDigitChars_ten_toDigits])
  rw [Nat.ofDigitChars_ten_toDigits] at ht
  rw [NumberText.value, ht]
  cases negative with
  | false => simp
  | true => simp [hn rfl]

theorem readFraction_of_endsNumber {rest : List Char} (hr : EndsNumber rest) :
    readFraction rest = some (none, rest) := by
  cases rest with
  | nil => rfl
  | cons c cs =>
    rw [readFraction]
    rintro _ ⟨⟩
    exact absurd rfl (hr '.' rfl).2.1

theorem readExponent_of_endsNumber {rest : List Char} (hr : EndsNumber rest) :
    readExponent rest = some (none, rest) := by
  cases rest with
  | nil => rfl
  | cons c cs => simp [readExponent, (hr c rfl).2.2]

def startsInteger (c : Char) : Bool := c = '-' || c.isDigit

theorem toList_toString (n : Int) : ∃ c cs, (toString n).toList = c :: cs ∧ startsInteger c = true := by
  have hd : ∀ m, ∃ c cs, Nat.toDigits 10 m = c :: cs ∧ startsInteger c = true := by
    intro m
    have hall := isDigit_toDigits m
    cases hds : Nat.toDigits 10 m with
    | nil => exact absurd hds Nat.toDigits_ne_nil
    | cons d ds => exact ⟨d, ds, rfl, by simp [startsInteger, hall d (by simp [hds])]⟩
  rw [Int.toString_eq_repr, Int.repr_eq_if]
  split
  · rw [Nat.toList_repr]
    exact hd _
  · exact ⟨'-', _, by simp; rfl, by decide⟩

theorem ne_of_startsInteger {c d : Char} (h : startsInteger c = true) (hd : startsInteger d = false) : c ≠ d := by
  rintro rfl
  simp [h] at hd

theorem not_isBlank_of_startsInteger {c : Char} (h : startsInteger c = true) : isBlank c = false := by
  have hne : ∀ d, startsInteger d = false → c ≠ d := fun d hd => ne_of_startsInteger h hd
  simp [isBlank, hne ' ' (by decide), hne '\n' (by decide), hne '\t' (by decide), hne '\r' (by decide)]

def holds64 (n : Int) : Bool := -0x8000000000000000 ≤ n && n < 0x10000000000000000

theorem readNumber_toString {n : Int} (h : holds64 n = true) {rest : List Char} (hr : EndsNumber rest) :
    readNumber ((toString n).toList ++ rest) = some (.integer n, rest) := by
  simp only [holds64, Bool.and_eq_true, decide_eq_true_eq] at h
  have hf := readFraction_of_endsNumber hr
  have he := readExponent_of_endsNumber hr
  rw [Int.toString_eq_repr, Int.repr_eq_if]
  split
  · next hn =>
    obtain ⟨m, rfl⟩ := Int.eq_ofNat_of_zero_le hn
    have hw := readWhole_toDigits m hr
    have hv := value_toDigits m false (by omega) (by simp)
    rw [Int.toNat_natCast, Nat.toList_repr, readNumber]
    · simp [hw, hf, he, hv]
    · exact fun _ => toDigits_append_ne m (by decide)
  · next hn =>
    have hw := readWhole_toDigits (-n).toNat hr
    have hv := value_toDigits (-n).toNat true (by omega) (by omega)
    simp [readNumber, Nat.toList_repr, hw, hf, he, hv]
    omega

/-! Values. -/

mutual
/-- Whether a text tells the value exactly: no number has a point, and 64 bits hold every integer. -/
def isExact : Json → Bool
  | integer n => holds64 n
  | array items => areExact items
  | object members => haveExact members
  | float _ | unreadable => false
  | _ => true

def areExact : List Json → Bool
  | [] => true
  | j :: rest => isExact j && areExact rest

def haveExact : List (String × Json) → Bool
  | [] => true
  | (_, j) :: rest => isExact j && haveExact rest
end

@[simp] theorem toList_quote (s : String) : (quote s).toList = '"' :: (s.toList.flatMap escape ++ ['"']) := by
  simp [quote]

def commas (parts : List String) : List Char := (String.intercalate "," parts).toList

theorem commas_writeItems_single (j : Json) : commas (writeItems [j]) = (write j).toList := by
  simp [commas, writeItems]

theorem commas_writeItems_cons (j k : Json) (items : List Json) :
    commas (writeItems (j :: k :: items)) = (write j).toList ++ ',' :: commas (writeItems (k :: items)) := by
  simp [commas, writeItems, String.intercalate_cons_cons]

theorem commas_writeMembers_single (name : String) (j : Json) :
    commas (writeMembers [(name, j)]) = (quote name).toList ++ ':' :: (write j).toList := by
  simp [commas, writeMembers]

theorem commas_writeMembers_cons (name : String) (j : Json) (m : String × Json) (members : List (String × Json)) :
    commas (writeMembers ((name, j) :: m :: members)) =
      (quote name).toList ++ ':' :: ((write j).toList ++ ',' :: commas (writeMembers (m :: members))) := by
  simp [commas, writeMembers, String.intercalate_cons_cons]

theorem toList_write_array (items : List Json) :
    (write (.array items)).toList = '[' :: (commas (writeItems items) ++ [']']) := by
  simp [write, commas]

theorem toList_write_object (members : List (String × Json)) :
    (write (.object members)).toList = '\x7b' :: (commas (writeMembers members) ++ ['\x7d']) := by
  simp [write, commas]

/-- A text that starts with a value: neither with a blank nor with the end of an array. -/
def StartsValue (cs : List Char) : Prop := ∃ c rest, cs = c :: rest ∧ isBlank c = false ∧ c ≠ ']'

theorem startsValue_write (j : Json) (h : j.isExact = true) : StartsValue (write j).toList := by
  cases j with
  | null => exact ⟨_, _, rfl, by decide, by decide⟩
  | bool b => cases b <;> exact ⟨_, _, rfl, by decide, by decide⟩
  | integer n =>
    obtain ⟨c, cs, hcs, hc⟩ := toList_toString n
    exact ⟨c, cs, hcs, not_isBlank_of_startsInteger hc, ne_of_startsInteger hc (by decide)⟩
  | float x => simp [isExact] at h
  | string s => exact ⟨_, _, toList_quote s, by decide, by decide⟩
  | array items => exact ⟨_, _, toList_write_array items, by decide, by decide⟩
  | object members => exact ⟨_, _, toList_write_object members, by decide, by decide⟩
  | unreadable => simp [isExact] at h

theorem startsValue_writeItems (j : Json) (items : List Json) (h : j.isExact = true) :
    StartsValue (commas (writeItems (j :: items))) := by
  obtain ⟨c, cs, hj, hc⟩ := startsValue_write j h
  cases items with
  | nil => exact ⟨c, cs, by rw [commas_writeItems_single, hj], hc⟩
  | cons k items => exact ⟨c, _, by rw [commas_writeItems_cons, hj]; rfl, hc⟩

theorem commas_writeMembers_head (m : String × Json) (members : List (String × Json)) :
    ∃ cs, commas (writeMembers (m :: members)) = '"' :: cs := by
  obtain ⟨name, j⟩ := m
  cases members with
  | nil => exact ⟨_, by rw [commas_writeMembers_single, toList_quote]; rfl⟩
  | cons k members => exact ⟨_, by rw [commas_writeMembers_cons, toList_quote]; rfl⟩

theorem StartsValue.skipBlanks {cs : List Char} (h : StartsValue cs) (rest : List Char) :
    skipBlanks (cs ++ rest) = cs ++ rest := by
  obtain ⟨c, cs, rfl, hc, _⟩ := h
  simp [Json.skipBlanks, hc]

theorem readValue_integer {n : Int} (h : holds64 n = true) {rest : List Char} (hr : EndsNumber rest)
    (depth fuel : Nat) :
    readValue depth (fuel + 1) ((toString n).toList ++ rest) = some (.integer n, rest) := by
  have hread := readNumber_toString h hr
  obtain ⟨c, cs, hcs, hc⟩ := toList_toString n
  have hne : ∀ d, startsInteger d = false → c ≠ d := fun d hd => ne_of_startsInteger hc hd
  have hskip : skipBlanks (c :: (cs ++ rest)) = c :: (cs ++ rest) := by
    simp [skipBlanks, not_isBlank_of_startsInteger hc]
  rw [hcs, List.cons_append] at hread ⊢
  unfold readValue
  simp only [hskip]
  split
  case h_7 => exact hread
  -- Every other branch starts with a character with which no integer starts.
  all_goals next heq => cases heq; exact absurd rfl (hne _ (by decide))

theorem readValue_array {depth fuel : Nat} {items : List Json} {cs more rest : List Char} (hd : depth < maxDepth)
    (hs : StartsValue cs) (hi : readItems (depth + 1) fuel (cs ++ more) = some (items, rest)) :
    readValue depth (fuel + 1) ('[' :: (cs ++ more)) = some (.array items, rest) := by
  obtain ⟨c, cs, rfl, hb, he⟩ := hs
  rw [List.cons_append] at hi ⊢
  have h1 : skipBlanks ('[' :: c :: (cs ++ more)) = '[' :: c :: (cs ++ more) := rfl
  have h2 : skipBlanks (c :: (cs ++ more)) = c :: (cs ++ more) := by simp [skipBlanks, hb]
  simp only [readValue, h1, h2]
  simp [he, hi, hd]

theorem ofMembers_named (members : List (String × Json)) :
    ofMembers (members.map fun m => (some m.1, m.2)) = .object members := by
  have h : (members.map fun m => (some m.1, m.2)).mapM
      (fun m => m.1.map fun name => (name, m.2)) = some members := by
    induction members with
    | nil => rfl
    | cons m rest ih => simp [List.mapM_cons, ih]
  rw [ofMembers, h]

theorem readValue_object {depth fuel : Nat} {members : List (String × Json)} {cs rest : List Char}
    (hd : depth < maxDepth)
    (hm : readMembers (depth + 1) fuel ('"' :: cs) = some (members.map fun m => (some m.1, m.2), rest)) :
    readValue depth (fuel + 1) ('\x7b' :: '"' :: cs) = some (.object members, rest) := by
  have h1 : skipBlanks ('\x7b' :: '"' :: cs) = '\x7b' :: '"' :: cs := rfl
  have h2 : skipBlanks ('"' :: cs) = '"' :: cs := rfl
  simp only [readValue, h1, h2]
  simp [hm, hd, ofMembers_named]

/-- Fuel that lasts for a value is not used up. -/
theorem exists_fuel {j : Json} (h : j.isExact = true) {fuel : Nat} (hf : 2 * (write j).toList.length ≤ fuel) :
    ∃ n, fuel = n + 1 := by
  obtain ⟨c, cs, hj, _⟩ := startsValue_write j h
  rw [hj, List.length_cons] at hf
  exact ⟨fuel - 1, by omega⟩

/-! The three readers are followed together, over the constructors of the value. Each reader passes on one
unit of fuel less than it has and leaves at least one character to the next, so twice as much fuel as there are
characters lasts. -/

mutual
/-- A value that the text tells exactly is read back, nested as deeply as allowed and whatever follows. -/
theorem readValue_write (j : Json) (depth fuel : Nat) (rest : List Char) (h : j.isExact = true)
    (hd : depth + j.depth ≤ maxDepth) (hf : 2 * (write j).toList.length ≤ fuel) (hr : EndsNumber rest) :
    readValue depth fuel ((write j).toList ++ rest) = some (j, rest) := by
  obtain ⟨fuel, rfl⟩ := exists_fuel h hf
  cases j with
  | null => simp [write, readValue, skipBlanks, isBlank, after?]
  | bool b => cases b <;> simp [write, readValue, skipBlanks, isBlank, after?]
  | integer n => exact readValue_integer h hr depth fuel
  | float x => simp [isExact] at h
  | string s => simp [write, readValue, skipBlanks, isBlank, readText_quoted]
  | array items =>
    rw [Json.depth] at hd
    cases items with
    | nil =>
      have hd : depth < maxDepth := by omega
      simp [write, writeItems, readValue, skipBlanks, isBlank, hd]
    | cons j items =>
      rw [toList_write_array] at hf ⊢
      simp only [List.length_cons, List.length_append, List.length_nil] at hf
      have hi := readItems_write (j :: items) (depth + 1) fuel rest (by simp) h (by omega) (by omega)
      rw [isExact, areExact, Bool.and_eq_true] at h
      rw [List.cons_append, List.append_assoc]
      exact readValue_array (by omega) (startsValue_writeItems j items h.1) hi
  | object members =>
    rw [Json.depth] at hd
    cases members with
    | nil =>
      have hd : depth < maxDepth := by omega
      simp [write, writeMembers, readValue, skipBlanks, isBlank, hd, ofMembers]
    | cons m members =>
      rw [toList_write_object] at hf ⊢
      simp only [List.length_cons, List.length_append, List.length_nil] at hf
      have hm := readMembers_write (m :: members) (depth + 1) fuel rest (by simp) h (by omega) (by omega)
      obtain ⟨cs, hcs⟩ := commas_writeMembers_head m members
      rw [hcs, List.cons_append] at hm
      rw [hcs, List.cons_append, List.cons_append, List.cons_append, List.append_assoc]
      exact readValue_object (by omega) hm
  | unreadable => simp [isExact] at h

theorem readItems_write : ∀ (items : List Json) (depth fuel : Nat) (rest : List Char), items ≠ [] →
    areExact items = true → depth + depthOfItems items ≤ maxDepth →
    2 * (commas (writeItems items)).length + 1 ≤ fuel →
    readItems depth fuel (commas (writeItems items) ++ ']' :: rest) = some (items, rest)
  | [] => fun _ _ _ hne => absurd rfl hne
  | [j] => by
    intro depth fuel rest _ h hd hf
    obtain ⟨fuel, rfl⟩ : ∃ n, fuel = n + 1 := ⟨fuel - 1, by omega⟩
    rw [commas_writeItems_single] at hf ⊢
    simp only [areExact, Bool.and_true, depthOfItems] at h hd
    have hj := readValue_write j depth fuel (']' :: rest) h (by omega) (by omega) (endsNumber_cons (by decide))
    simp [readItems, hj, skipBlanks, isBlank]
  | j :: k :: items => by
    intro depth fuel rest _ h hd hf
    obtain ⟨fuel, rfl⟩ : ∃ n, fuel = n + 1 := ⟨fuel - 1, by omega⟩
    rw [commas_writeItems_cons] at hf ⊢
    rw [List.length_append, List.length_cons] at hf
    rw [List.append_assoc, List.cons_append]
    rw [areExact, Bool.and_eq_true] at h
    rw [depthOfItems] at hd
    have hi := readItems_write (k :: items) depth fuel rest (by simp) h.2 (by omega) (by omega)
    have hj := readValue_write j depth fuel (',' :: (commas (writeItems (k :: items)) ++ ']' :: rest)) h.1
      (by omega) (by omega) (endsNumber_cons (by decide))
    simp [readItems, hj, hi, skipBlanks, isBlank]

theorem readMembers_write : ∀ (members : List (String × Json)) (depth fuel : Nat) (rest : List Char),
    members ≠ [] → haveExact members = true → depth + depthOfMembers members ≤ maxDepth →
    2 * (commas (writeMembers members)).length + 1 ≤ fuel →
    readMembers depth fuel (commas (writeMembers members) ++ '\x7d' :: rest) =
      some (members.map fun m => (some m.1, m.2), rest)
  | [] => fun _ _ _ hne => absurd rfl hne
  | [(name, j)] => by
    intro depth fuel rest _ h hd hf
    obtain ⟨fuel, rfl⟩ : ∃ n, fuel = n + 1 := ⟨fuel - 1, by omega⟩
    rw [commas_writeMembers_single, toList_quote] at hf ⊢
    simp only [List.length_append, List.length_cons] at hf
    simp only [haveExact, Bool.and_true, depthOfMembers] at h hd
    have hj := readValue_write j depth fuel ('\x7d' :: rest) h (by omega) (by omega) (endsNumber_cons (by decide))
    simp [readMembers, hj, skipBlanks, isBlank, readText_quoted]
  | (name, j) :: m :: members => by
    intro depth fuel rest _ h hd hf
    obtain ⟨fuel, rfl⟩ : ∃ n, fuel = n + 1 := ⟨fuel - 1, by omega⟩
    rw [commas_writeMembers_cons, toList_quote] at hf ⊢
    simp only [List.length_append, List.length_cons] at hf
    rw [haveExact, Bool.and_eq_true] at h
    rw [depthOfMembers] at hd
    have hm := readMembers_write (m :: members) depth fuel rest (by simp) h.2 (by omega) (by omega)
    have hj := readValue_write j depth fuel (',' :: (commas (writeMembers (m :: members)) ++ '\x7d' :: rest)) h.1
      (by omega) (by omega) (endsNumber_cons (by decide))
    simp [readMembers, hj, hm, skipBlanks, isBlank, readText_quoted]
end

/-- What is written of a value that the text tells exactly, and not too deeply, reads as the same value. -/
theorem read?_write (j : Json) (h : j.isExact = true) (hd : j.depth ≤ maxDepth) : read? j.write = some j := by
  have hr := readValue_write j 0 (2 * (write j).toList.length + 2) [] h (by omega) (by omega) (by simp [EndsNumber])
  rw [List.append_nil] at hr
  simp [read?, hr, skipBlanks]

end Provisioning.Json
