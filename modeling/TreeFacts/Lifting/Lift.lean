import TreeFacts.Fact.Set
import TreeFacts.Lifting.Value
import TreeFacts.Tree.Index
import TreeFacts.Types.Registry

namespace TreeFacts

/-- What lifting needs to know: the types of columns and the nodes of the trees. -/
structure Lifter where
  registry : Registry
  nodes : NodeIndex

namespace Lifter

def misfit {α : Type} (v : FactValue) (type : ColumnType) : Except Error α :=
  .error (.parse (.misfit v type))

/-- The node that a number refers to. -/
def liftReference (l : Lifter) (id : NodeId) : Except Error Lifted :=
  if id = absentId then .ok .absent
  else match l.nodes.get? id with
    | some n => .ok (.node n)
    | none => .error (.danglingReference id)

/-- A value without parts, by the class of its type. Of a record there is only the missing one. -/
def liftAtom (l : Lifter) (v : FactValue) (type : ColumnType) : TypeClass → Except Error Lifted
  | .number =>
    match v with
    | .number n => .ok (.number n)
    | _ => misfit v type
  | .symbol =>
    match v with
    | .symbol s => .ok (.text s)
    | _ => misfit v type
  | .bool =>
    match v with
    | .number n => .ok (.bool (n = 1))
    | _ => misfit v type
  | .nodeId =>
    match v with
    | .number n => l.liftReference n
    | _ => misfit v type
  | .record =>
    match v, l.registry.record? type.name with
    | .nil, some _ => .ok (if l.registry.isConsList type.name then .list [] else .absent)
    | .nil, none => .error (.unknownType type.name)
    | _, _ => misfit v type
  | .union => misfit v type

mutual

/-- A value in terms of the tree, as its type says: identifiers become nodes, cells a list. -/
def lift (l : Lifter) : FactValue → ColumnType → Except Error Lifted
  | .record fields, type => do
    match ← l.registry.classify type with
    | .record =>
      match l.registry.record? type.name with
      | none => .error (.unknownType type.name)
      | some fts =>
        if l.registry.isConsList type.name then
          (liftCell l type.name ((fts.head?.map (·.2)).getD type) fields).map .list
        else if fields.length = fts.length then (liftFields l fts fields).map .record
        else .error (.parse (.recordWidth type.name fts.length fields.length))
    | c => l.liftAtom (.record fields) type c
  | .branch tag args, type => do
    match ← l.registry.classify type with
    | .union =>
      match ((l.registry.union? type.name).getD []).find? (·.name == tag) with
      | none => .error (.unknownType (type.name ++ "::" ++ tag))
      | some b =>
        if b.fields.length = args.length then (liftFields l b.fields args).map (.variant tag)
        else misfit (.branch tag args) type
    | c => l.liftAtom (.branch tag args) type c
  | v, type => do l.liftAtom v type (← l.registry.classify type)

/-- The elements of a list, given by the fields of its first cell. -/
def liftCell (l : Lifter) (name : String) (element : ColumnType) :
    List FactValue → Except Error (List Lifted)
  | [head, .nil] => do return [← lift l head element]
  | [head, .record tail] => do return (← lift l head element) :: (← liftCell l name element tail)
  | _ => .error (.parse (.malformedCell name))

def liftFields (l : Lifter) :
    FieldTypes → List FactValue → Except Error (List (String × Lifted))
  | (name, type) :: fts, v :: vs => do return (name, ← lift l v type) :: (← liftFields l fts vs)
  | _, _ => .ok []

end

/-- A tuple of the given relation in terms of the tree. -/
def liftTuple (l : Lifter) (r : Relation) (t : Tuple) : Except Error LiftedFact :=
  if t.length = r.arity then do
    let values ← (t.zip r.columns).mapM fun (p : FactValue × String × ColumnType) =>
      l.lift p.1 p.2.2
    return ⟨r.name, r.columns.map (·.1), values⟩
  else .error (.arityMismatch r.name r.arity t.length)

/-- All tuples of a relation. -/
def liftAll (l : Lifter) (fs : FactSet) (name : String) : Except Error (List LiftedFact) :=
  match fs.table? name with
  | some (r, tuples) => tuples.mapM (l.liftTuple r)
  | none => .error (.unknownRelation name)

end Lifter

end TreeFacts
