import Provisioning.Naming

/-! Kinds of change: what an update does with the values it names, and what a reported change did to
an object. -/

namespace Provisioning

/-- What an update does with the values it names. -/
inductive UpdateKind where
  | add
  | delete
  | replace
deriving DecidableEq, Inhabited

namespace UpdateKind

def all : List UpdateKind := [add, delete, replace]

def text : UpdateKind → String
  | add => "add"
  | delete => "delete"
  | replace => "replace"

/-- Reads a kind in any case. No letter outside ASCII has one of the letters of these words as its
lower case, so folding ASCII letters is enough. -/
def ofText? (s : String) : Option UpdateKind := all.find? fun k => k.text = foldCase s

/-- What to say of a text that names no kind. -/
def malformed (s : String) : String := "Unknown update type: " ++ s

end UpdateKind

/-- What a reported change did to its object. -/
inductive DeltaKind where
  | create
  | update
  | createOrUpdate
  | delete
deriving DecidableEq, Inhabited

namespace DeltaKind

def all : List DeltaKind := [create, update, createOrUpdate, delete]

def text : DeltaKind → String
  | create => "create"
  | update => "update"
  | createOrUpdate => "create_or_update"
  | delete => "delete"

def ofText? (s : String) : Option DeltaKind := all.find? fun k => k.text = s

end DeltaKind

end Provisioning
