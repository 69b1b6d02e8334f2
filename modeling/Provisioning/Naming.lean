/-! Names of attributes and object classes. Two names are the same when they agree letter by letter up
to the case of ASCII letters; `sameName_iff` says that this is equality of the folded names, under
which attributes are stored and sorted. -/

namespace Provisioning

/-- ASCII letters in lower case, every other character as it is. -/
def foldCase (s : String) : String := String.ofList (s.toList.map Char.toLower)

/-- Letter by letter comparison that ignores the case of ASCII letters, and of no others. -/
def sameName (a b : String) : Bool := a.toList.isEqv b.toList fun c d => c.toLower == d.toLower

theorem isEqv_toLower_iff (cs ds : List Char) :
    (cs.isEqv ds fun c d => c.toLower == d.toLower) = true ↔ cs.map Char.toLower = ds.map Char.toLower := by
  induction cs generalizing ds with
  | nil => cases ds <;> simp [List.isEqv]
  | cons c cs ih => cases ds <;> simp [List.isEqv, ih]

theorem sameName_iff (a b : String) : sameName a b = true ↔ foldCase a = foldCase b := by
  simp only [sameName, foldCase, isEqv_toLower_iff]
  exact ⟨fun h => by rw [h], fun h => by simpa using congrArg String.toList h⟩

theorem sameName_refl (a : String) : sameName a a = true := (sameName_iff a a).2 rfl

theorem sameName_comm (a b : String) : sameName a b = sameName b a := by
  rw [Bool.eq_iff_iff, sameName_iff, sameName_iff]
  exact eq_comm

/-- The attribute that identifies an object. -/
def uidName : String := "__UID__"

/-- The attribute that holds the name a user knows an object by. -/
def nameName : String := "__NAME__"

/-- The attributes that steer an account rather than describe it. -/
def operationalNames : List String :=
  ["__PASSWORD__", "__CURRENT_PASSWORD__", "__ENABLE__", "__ENABLE_DATE__", "__DISABLE_DATE__",
    "__LOCK_OUT__", "__PASSWORD_EXPIRATION_DATE__", "__PASSWORD_EXPIRED__"]

/-- A reserved name stands between double underscores and has something between them, counted in bytes. -/
def isSpecialName (name : String) : Bool :=
  name.utf8ByteSize > 4 && "__".toList.isPrefixOf name.toList && "__".toList.isSuffixOf name.toList

def isOperationalName (name : String) : Bool := operationalNames.any (sameName name)

end Provisioning
