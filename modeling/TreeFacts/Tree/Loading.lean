import TreeFacts.Json.Reader
import TreeFacts.Text.Numeral
import TreeFacts.Tree.Basic

namespace TreeFacts

/-- The keys of a node object that are not fields. -/
def reservedKeys : List String := ["id", "src", "nodeType"]

/-- Members with the values that were read for them, if all could be read. -/
def allRead? (members : List (String × Option Value)) : Option (Entries Value) :=
  (members.mapM fun (m : String × Option Value) => m.2.map (m.1, ·)).map Entries.ofList

/-- The node that an object stands for: an identifier and a kind once each, a source span at most
once, and every other member a field, of which the last under one key counts. -/
def nodeOfMembers? (members : List (String × Option Value)) : Option Node := do
  let given (key : String) : List (Option Value) := (members.filter (·.1 == key)).map (·.2)
  let [some (.int id)] := given "id" | none
  let [some (.text kind)] := given "nodeType" | none
  let src ← match given "src" with
    | [] => some ""
    | [some (.text src)] => some src
    | _ => none
  let fields ← allRead? (members.filter fun m => !reservedKeys.contains m.1)
  return .mk id src kind fields

mutual

/-- A JSON value as a field value. An object that is no node is a map. -/
def Value.ofJson? : Json → Option Value
  | .null => some .null
  | .bool b => some (.bool b)
  | .int n => (Text.int64? n).map .int
  | .real => none
  | .str s => some (.text s)
  | .arr items => (Value.ofItems? items).map .list
  | .obj members =>
    let read := Value.ofMembers members
    match nodeOfMembers? read with
    | some n => some (.node n)
    | none => (allRead? read).map .map

def Value.ofItems? : List Json → Option (List Value)
  | [] => some []
  | item :: items => do return (← Value.ofJson? item) :: (← Value.ofItems? items)

def Value.ofMembers : List (String × Json) → List (String × Option Value)
  | [] => []
  | (key, value) :: members => (key, Value.ofJson? value) :: Value.ofMembers members

end

def Node.ofJson? : Json → Option Node
  | .obj members => nodeOfMembers? (Value.ofMembers members)
  | _ => none

def Node.parse? (text : String) : Option Node := (Json.parse text).bind Node.ofJson?

mutual

def Node.toJson : Node → Json
  | .mk id src kind fields =>
    .obj ([("id", .int id.toInt), ("src", .str src), ("nodeType", .str kind)] ++
      Value.entriesToJson fields)

def Value.toJson : Value → Json
  | .null => .null
  | .bool b => .bool b
  | .int n => .int n.toInt
  | .text s => .str s
  | .node n => n.toJson
  | .list items => .arr (Value.listToJson items)
  | .map entries => .obj (Value.entriesToJson entries)

def Value.listToJson : List Value → List Json
  | [] => []
  | v :: rest => v.toJson :: Value.listToJson rest

def Value.entriesToJson : List (String × Value) → List (String × Json)
  | [] => []
  | (key, v) :: rest => (key, v.toJson) :: Value.entriesToJson rest

end

end TreeFacts
