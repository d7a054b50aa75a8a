import TreeFacts.Entries
import TreeFacts.Text.Numeral

namespace TreeFacts

/-- Identifies a node within one forest. -/
abbrev NodeId := Int64

mutual

/-- A syntax-tree node. A child is embedded in a field; a reference to a node elsewhere is its bare
identifier. -/
inductive Node where
  | mk (id : NodeId) (src : String) (kind : String) (fields : List (String × Value))

/-- What a field holds. Whether text is free or a keyword, and whether a number counts something or
names a node, is for the grammar to say. -/
inductive Value where
  | null
  | bool (b : Bool)
  | int (n : Int64)
  | text (s : String)
  | node (n : Node)
  | list (items : List Value)
  | map (entries : List (String × Value))

end

instance : Inhabited Node := ⟨.mk 0 "" "" []⟩

instance : Inhabited Value := ⟨.null⟩

/-- Stands where a reference is absent. -/
def absentId : NodeId := -1

namespace Value

def isNull : Value → Bool
  | null => true
  | _ => false

def text? : Value → Option String
  | text s => some s
  | _ => none

def int? : Value → Option Int64
  | int n => some n
  | _ => none

def bool? : Value → Option Bool
  | bool b => some b
  | _ => none

def node? : Value → Option Node
  | node n => some n
  | _ => none

end Value

namespace Node

def id : Node → NodeId
  | mk id _ _ _ => id

/-- The source span, as written. -/
def src : Node → String
  | mk _ src _ _ => src

def kind : Node → String
  | mk _ _ kind _ => kind

/-- The fields in key order. -/
def fields : Node → Entries Value
  | mk _ _ _ fields => fields

def new (id : NodeId) (kind src : String) : Node := mk id src kind []

def setField (n : Node) (name : String) (value : Value) : Node :=
  mk n.id n.src n.kind (Entries.insert name value n.fields)

def field? (n : Node) (name : String) : Option Value := n.fields.lookup name

/-- The text of the node's name field, if it has one that is text. -/
def name? (n : Node) : Option String := (n.field? "name").bind Value.text?

end Node

/-- The node a value refers to, embedded or by identifier. -/
def Value.nodeId? : Value → Option NodeId
  | .node n => some n.id
  | .int n => some n
  | _ => none

mutual

/-- The nodes embedded in a value with no other node between, in order. -/
def Value.nodes : Value → List Node
  | .node n => [n]
  | .list items => Value.nodesInList items
  | .map entries => Value.nodesInEntries entries
  | .null | .bool _ | .int _ | .text _ => []

def Value.nodesInList : List Value → List Node
  | [] => []
  | v :: rest => v.nodes ++ Value.nodesInList rest

def Value.nodesInEntries : List (String × Value) → List Node
  | [] => []
  | (_, v) :: rest => v.nodes ++ Value.nodesInEntries rest

end

def Node.children (n : Node) : List Node := Value.nodesInEntries n.fields

mutual

/-- How many nodes a tree has. -/
def Node.size : Node → Nat
  | .mk _ _ _ fields => Value.sizeInEntries fields + 1

def Value.size : Value → Nat
  | .node n => n.size
  | .list items => Value.sizeInList items
  | .map entries => Value.sizeInEntries entries
  | .null | .bool _ | .int _ | .text _ => 0

def Value.sizeInList : List Value → Nat
  | [] => 0
  | v :: rest => v.size + Value.sizeInList rest

def Value.sizeInEntries : List (String × Value) → Nat
  | [] => 0
  | (_, v) :: rest => v.size + Value.sizeInEntries rest

end

theorem Value.sizeInList_append (vs ws : List Value) :
    Value.sizeInList (vs ++ ws) = Value.sizeInList vs + Value.sizeInList ws := by
  induction vs with
  | nil => simp only [List.nil_append, Value.sizeInList, Nat.zero_add]
  | cons v vs ih => simp only [List.cons_append, Value.sizeInList, ih, Nat.add_assoc]

mutual

theorem Value.size_nodes : ∀ v : Value, Value.sizeInList (v.nodes.map .node) = v.size
  | .node _ => rfl
  | .list items => by simp only [Value.nodes, Value.size, Value.size_nodesInList items]
  | .map entries => by simp only [Value.nodes, Value.size, Value.size_nodesInEntries entries]
  | .null | .bool _ | .int _ | .text _ => rfl

theorem Value.size_nodesInList : ∀ items : List Value,
    Value.sizeInList ((Value.nodesInList items).map .node) = Value.sizeInList items
  | [] => rfl
  | v :: rest => by
    simp only [Value.nodesInList, List.map_append, Value.sizeInList_append, Value.sizeInList,
      Value.size_nodes v, Value.size_nodesInList rest]

theorem Value.size_nodesInEntries : ∀ entries : List (String × Value),
    Value.sizeInList ((Value.nodesInEntries entries).map .node) = Value.sizeInEntries entries
  | [] => rfl
  | (_, v) :: rest => by
    simp only [Value.nodesInEntries, List.map_append, Value.sizeInList_append,
      Value.sizeInEntries, Value.size_nodes v, Value.size_nodesInEntries rest]

end

theorem Node.size_eq (n : Node) : n.size = Value.sizeInList (n.children.map .node) + 1 := by
  cases n
  simp only [Node.size, Node.children, Node.fields, Value.size_nodesInEntries]

/-- What can be wrong with a tree on its own. -/
inductive TreeError where
  | unknownNodeKind (name : String)
  | duplicateId (id : NodeId)
  | invalidSpan (text : String)
  | json
  deriving DecidableEq, Repr

def TreeError.message : TreeError → String
  | unknownNodeKind name => "unknown node kind: " ++ name
  | duplicateId id => "duplicate node id " ++ Text.showInt64 id
  | invalidSpan text => "invalid source location: " ++ text
  | json => "JSON error"

end TreeFacts
