/-! JSON values. A value read from text may hold parts that the text spells correctly but that nothing
can use; such a part does no harm as long as it is skipped. -/

namespace Provisioning

inductive Json where
  | null
  | bool (truth : Bool)
  | integer (number : Int)
  | float (number : Float)
  | string (text : String)
  | array (items : List Json)
  /-- The members in the order in which they are written; a name may occur more than once. -/
  | object (members : List (String × Json))
  /-- A number beyond the range of numbers, a text that breaks a surrogate pair, an object that has
  such a text as a name, or a value nested too deeply. -/
  | unreadable
deriving Inhabited

namespace Json

mutual
/-- Whether every part can be used. -/
def isReadable : Json → Bool
  | unreadable => false
  | array items => areReadable items
  | object members => haveReadable members
  | _ => true

def areReadable : List Json → Bool
  | [] => true
  | j :: rest => isReadable j && areReadable rest

def haveReadable : List (String × Json) → Bool
  | [] => true
  | (_, j) :: rest => isReadable j && haveReadable rest
end

/-- Puts a member in the place of its name; one of the same name gives way. -/
def insertMember (name : String) (j : Json) : List (String × Json) → List (String × Json)
  | [] => [(name, j)]
  | (other, k) :: rest =>
    if name < other then (name, j) :: (other, k) :: rest
    else if name = other then (name, j) :: rest
    else (other, k) :: insertMember name j rest

/-- Members sorted by name; of equal names the last stays. -/
def sortMembers (members : List (String × Json)) : List (String × Json) :=
  members.foldl (fun sorted m => insertMember m.1 m.2 sorted) []

mutual
/-- A value whose structure nothing prescribes: its objects are sorted by name and name nothing twice. -/
def canonical : Json → Json
  | array items => array (canonicalItems items)
  | object members => object (sortMembers (canonicalMembers members))
  | j => j

def canonicalItems : List Json → List Json
  | [] => []
  | j :: rest => canonical j :: canonicalItems rest

def canonicalMembers : List (String × Json) → List (String × Json)
  | [] => []
  | (name, j) :: rest => (name, canonical j) :: canonicalMembers rest
end

mutual
/-- How deeply arrays and objects are nested. -/
def depth : Json → Nat
  | array items => depthOfItems items + 1
  | object members => depthOfMembers members + 1
  | _ => 0

def depthOfItems : List Json → Nat
  | [] => 0
  | j :: rest => max (depth j) (depthOfItems rest)

def depthOfMembers : List (String × Json) → Nat
  | [] => 0
  | (_, j) :: rest => max (depth j) (depthOfMembers rest)
end

end Json

end Provisioning
