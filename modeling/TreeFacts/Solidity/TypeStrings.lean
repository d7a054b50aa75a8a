import TreeFacts.Tree.Loading

namespace TreeFacts.Solidity

/-- The type string that a node's type description gives, if the node has none of its own. -/
def describedType? (fields : List (String × Value)) : Option Value :=
  match fields.lookup "typeString", fields.lookup "typeDescriptions" with
  | none, some (.map description) => description.lookup "typeString"
  | _, _ => none

mutual

/-- Puts described type strings onto the nodes themselves, all through a tree. A string that is
put in place is itself searched for nodes. -/
def liftNode : Node → Node
  | .mk id src kind fields =>
    let lifted := liftEntries fields
    .mk id src kind <|
      match describedType? lifted with
      | some type => Entries.insert "typeString" type lifted
      | none => lifted

def liftValue : Value → Value
  | .node n => .node (liftNode n)
  | .list items => .list (liftList items)
  | .map entries => .map (liftEntries entries)
  | .null => .null
  | .bool b => .bool b
  | .int n => .int n
  | .text s => .text s

def liftList : List Value → List Value
  | [] => []
  | v :: rest => liftValue v :: liftList rest

def liftEntries : List (String × Value) → List (String × Value)
  | [] => []
  | (key, v) :: rest => (key, liftValue v) :: liftEntries rest

end

/-- Reads a compiler's compact JSON tree. -/
def load? (text : String) : Option Node := (Node.parse? text).map liftNode

end TreeFacts.Solidity
