import TreeFacts.Tree.Basic
import TreeFacts.Text.Numeral

namespace TreeFacts

/-- A column value in terms of the tree. -/
inductive Lifted where
  | number (n : Int64)
  | text (s : String)
  | bool (b : Bool)
  | node (n : Node)
  /-- an absent reference, or the missing value of a record that is no list -/
  | absent
  | list (items : List Lifted)
  | record (fields : List (String × Lifted))
  | variant (tag : String) (payload : List (String × Lifted))

namespace Lifted

instance : Inhabited Lifted := ⟨absent⟩

def node? : Lifted → Option Node
  | node n => some n
  | _ => none

mutual

def render : Lifted → String
  | number n => Text.showInt64 n
  | text s => s
  | bool b => if b then "true" else "false"
  | node n => n.kind ++ "#" ++ Text.showInt64 n.id
  | absent => "<absent>"
  | list items => "[" ++ ",".intercalate (renderItems items) ++ "]"
  | record fields => "\x7b" ++ ", ".intercalate (renderFields fields) ++ "\x7d"
  | variant tag [] => tag
  | variant tag payload => tag ++ "(" ++ ", ".intercalate (renderPayload payload) ++ ")"

def renderItems : List Lifted → List String
  | [] => []
  | v :: rest => v.render :: renderItems rest

def renderFields : List (String × Lifted) → List String
  | [] => []
  | (name, v) :: rest => (name ++ ": " ++ v.render) :: renderFields rest

def renderPayload : List (String × Lifted) → List String
  | [] => []
  | (_, v) :: rest => v.render :: renderPayload rest

end

mutual

/-- A field value of a tree as a lifted value. -/
def ofTree : Value → Lifted
  | .null => absent
  | .bool b => bool b
  | .int n => number n
  | .text s => text s
  | .node n => node n
  | .list items => list (ofTreeItems items)
  | .map entries => record (ofTreeEntries entries)

def ofTreeItems : List Value → List Lifted
  | [] => []
  | v :: rest => ofTree v :: ofTreeItems rest

def ofTreeEntries : List (String × Value) → List (String × Lifted)
  | [] => []
  | (key, v) :: rest => (key, ofTree v) :: ofTreeEntries rest

end

end Lifted

/-- A tuple in terms of the tree, under the names of its columns. -/
structure LiftedFact where
  relation : String
  columns : List String
  values : List Lifted

namespace LiftedFact

/-- The value of the first column with the given name. -/
def column? (f : LiftedFact) (name : String) : Option Lifted :=
  (f.columns.findIdx? (· == name)).bind fun i => f.values[i]?

end LiftedFact

end TreeFacts
