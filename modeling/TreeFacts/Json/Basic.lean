namespace TreeFacts

/-- A JSON document. Members stand in written order, repeated keys included. Integers are kept as
they are; of a number with a fraction or an exponent, and of `-0`, only that it is one. -/
inductive Json where
  | null
  | bool (b : Bool)
  | int (n : Int)
  | real
  | str (s : String)
  | arr (items : List Json)
  | obj (members : List (String × Json))

namespace Json

instance : Inhabited Json := ⟨null⟩

/-- The last member with the given key. -/
def member? : Json → String → Option Json
  | obj members, key => (members.filter (·.1 == key)).getLast?.map (·.2)
  | _, _ => none

def ofOption : Option Json → Json
  | some j => j
  | none => null

def strings (items : List String) : Json := arr (items.map str)

end Json

end TreeFacts
