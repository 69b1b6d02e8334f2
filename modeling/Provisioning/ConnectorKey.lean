/-! The key under which a connector is registered: bundle, version and name, written with colons
between them. The name may hold further colons. -/

namespace Provisioning

structure ConnectorKey where
  bundle : String
  version : String
  name : String
deriving DecidableEq, Inhabited

namespace ConnectorKey

def text (k : ConnectorKey) : String := k.bundle ++ ":" ++ k.version ++ ":" ++ k.name

/-- Cuts at the first colon. -/
def cut (cs : List Char) : Option (List Char × List Char) :=
  match cs.dropWhile (· ≠ ':') with
  | [] => none
  | _ :: rest => some (cs.takeWhile (· ≠ ':'), rest)

/-- Reads a key: the text before the first colon, between the first two, and all that follows, none
of them empty. -/
def ofText? (s : String) : Option ConnectorKey := do
  let (bundle, rest) ← cut s.toList
  let (version, name) ← cut rest
  if bundle.isEmpty || version.isEmpty || name.isEmpty then none
  else some ⟨String.ofList bundle, String.ofList version, String.ofList name⟩

/-- What to say of a text that is no key. -/
def malformed (s : String) : String :=
  "invalid connector key '" ++ s ++ "', expected bundle:version:connector"

/-- By bundle, then version, then name. -/
def compareKeys (a b : ConnectorKey) : Ordering :=
  (compare a.bundle b.bundle).then ((compare a.version b.version).then (compare a.name b.name))

instance : Ord ConnectorKey := ⟨compareKeys⟩

end ConnectorKey

end Provisioning
