import Std.Data.TreeMap

/-! JSON values. A number is kept as its numeral, members keep the order they are given in, and
`ordered` brings the members of every object into ascending order of their names. -/
namespace GlobalAudit

inductive Json where
  | null
  | bool (value : Bool)
  | number (numeral : String)
  | string (text : String)
  | array (items : List Json)
  | object (members : List (String × Json))
  deriving Inhabited

namespace Json

def ofNat (value : Nat) : Json := .number (toString value)

def ofInt (value : Int) : Json := .number (toString value)

/-- An absent value is `null`. -/
def ofOption {α : Type} (encode : α → Json) : Option α → Json
  | none => .null
  | some value => encode value

/-- The last value of each name, names ascending. -/
def lastByName {α : Type} (members : List (String × α)) : List (String × α) :=
  (Std.TreeMap.ofList members compare).toList

mutual

/-- The same value with the members of every object in ascending order of their names. -/
def ordered : Json → Json
  | .array items => .array (orderedItems items)
  | .object members => .object (lastByName (orderedMembers members))
  | other => other

def orderedItems : List Json → List Json
  | [] => []
  | item :: rest => ordered item :: orderedItems rest

def orderedMembers : List (String × Json) → List (String × Json)
  | [] => []
  | (name, value) :: rest => (name, ordered value) :: orderedMembers rest

end

end Json

end GlobalAudit
