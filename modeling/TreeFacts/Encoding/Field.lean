import TreeFacts.Encoding.Structured
import TreeFacts.Schema.Basic

namespace TreeFacts

namespace FieldContext

/-- Stands in a column where a value is absent. -/
def sentinel (c : FieldContext) (column : ColumnType) : Except Error FactValue := do
  match ← c.registry.classify column with
  | .number | .bool | .nodeId => return .number absentId
  | .symbol => return .symbol ""
  | .record => return .nil
  | .union => .error (c.fault .noAbsentValue)

/-- Whether a value cannot be told from an absent one. -/
def isSentinel (c : FieldContext) (column : ColumnType) (v : FactValue) : Bool :=
  match c.sentinel column with
  | .ok w => v == w
  | .error _ => false

/-- One element of a field as a value of its column. -/
def element (c : FieldContext) (semantic : SemanticType) (column : ColumnType) (v : Value) :
    Except Error FactValue :=
  match semantic with
  | .number => (c.require (.noNumber none) v.int?).map .number
  | .bool => (c.require (.noBoolean none) v.bool?).map .ofBool
  | .text => (c.require (.noText none) v.text?).map fun s => .symbol (sanitize s)
  | .enumeration _ => (c.require .noKeyword v.text?).map .symbol
  | .node _ | .anyNode | .nodeUnion _ =>
    if v.isNull then .ok (.number absentId)
    else (c.require (.noReference none) v.nodeId?).map .number
  | .nodeOrKeyword _ =>
    match v with
    | .text keyword => .ok (.symbol (sanitize keyword))
    | .node n => (c.require (.unnamedNode n.id) n.name?).map fun s => .symbol (sanitize s)
    | _ => .error (c.fault .noNodeOrKeyword)
  | .record _ | .union _ => (Reading.of c v).value column

/-- The elements of a list, of which null has none. -/
def items (c : FieldContext) : Value → Except Error (List Value)
  | .null => .ok []
  | .list items => .ok items
  | _ => .error (c.fault .noList)

def entries (c : FieldContext) : Value → Except Error (Entries Value)
  | .null => .ok []
  | .map entries => .ok entries
  | _ => .error (c.fault .noMap)

end FieldContext

def indexValue (n : Nat) : FactValue := .number (Int64.ofNat n)

/-- Says of an optional field of a node that its value looks like an absent one. -/
structure Warning where
  kind : String
  field : String
  id : NodeId
  deriving DecidableEq, Repr

namespace FieldProjection

variable (p : FieldProjection) (c : FieldContext) (id : FactValue)

/-- The elements of a list without holes, each with its index. -/
def arrayTuples : Nat → List Value → Except Error (List Tuple)
  | _, [] => .ok []
  | index, v :: rest => do
    if v.isNull then .error (c.fault (.hole index))
    let w ← c.element p.semantic p.valueType v
    return [id, w, indexValue index] :: (← arrayTuples (index + 1) rest)

/-- The elements of a list that may have holes, each with its index among the elements and its
index in the list. -/
def sparseTuples : Nat → Nat → List Value → Except Error (List Tuple)
  | _, _, [] => .ok []
  | index, rawIndex, v :: rest =>
    if v.isNull then sparseTuples index (rawIndex + 1) rest
    else do
      let w ← c.element p.semantic p.valueType v
      return [id, w, indexValue index, indexValue rawIndex] ::
        (← sparseTuples (index + 1) (rawIndex + 1) rest)

/-- The values of one entry of a map. References may be listed, several under one key. -/
def entryValues (v : Value) : List Value :=
  match v with
  | .list targets => if p.isReference then targets else [v]
  | _ => [v]

def entryTuples (entry : String × Value) : Except Error (List Tuple) :=
  (p.entryValues entry.2).mapM fun v => do
    return [id, .symbol (sanitize entry.1), ← c.element p.semantic p.valueType v]

/-- The tuples of a field of the node with the given identifier. -/
def tuples (v : Value) : Except Error (List Tuple) := do
  match p.shape with
  | .scalar =>
    let w ← if v.isNull then c.sentinel p.valueType else c.element p.semantic p.valueType v
    return [[id, w]]
  | .optional =>
    if v.isNull then return [[id, ← c.sentinel p.valueType, .ofBool false]]
    return [[id, ← c.element p.semantic p.valueType v, .ofBool true]]
  | .array => arrayTuples p c id 0 (← c.items v)
  | .sparseArray => sparseTuples p c id 0 0 (← c.items v)
  | .map => return (← (← c.entries v).mapM (entryTuples p c id)).flatten
  | .recordList =>
    match c.registry.record? p.valueType.name with
    | some ((_, head) :: _) =>
      let items ← (← c.items v).mapM (c.element p.semantic head)
      return [[id, .ofList items]]
    | _ => .error (c.fault (.noListType p.valueType))

/-- Whether the value of an optional field is there but looks absent. -/
def isAmbiguous (v : Value) : Bool :=
  p.shape == .optional && !v.isNull &&
    match c.element p.semantic p.valueType v with
    | .ok w => c.isSentinel p.valueType w
    | .error _ => false

end FieldProjection

end TreeFacts
