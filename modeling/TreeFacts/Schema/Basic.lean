import TreeFacts.Tree.Basic
import TreeFacts.Types.Registry

namespace TreeFacts

/-- A field of a kind with the relation that holds its values. -/
structure FieldProjection where
  field : String
  relation : String
  shape : FieldShape
  semantic : SemanticType
  /-- the type of the values, which for a record list is that of the list -/
  valueType : ColumnType
  deriving DecidableEq, Repr

namespace FieldProjection

def isReference (p : FieldProjection) : Bool := p.semantic.isReference

/-- The field's relation on nodes identified by the given type. -/
def toRelation (p : FieldProjection) (idType : ColumnType) : Relation :=
  let value (name : String) : String × ColumnType := (name, p.valueType)
  let element := value (if p.isReference then "childId" else "value")
  let rest := match p.shape with
    | .scalar => [element]
    | .recordList => [value "value"]
    | .optional => [element, ("present", .bool)]
    | .array => [element, ("index", .number)]
    | .sparseArray => [element, ("index", .number), ("rawIndex", .number)]
    | .map => [("key", .symbol), element]
  ⟨p.relation, ("id", idType) :: rest⟩

end FieldProjection

/-- A kind as facts see it. -/
structure KindSchema where
  name : String
  base : String
  isAbstract : Bool
  idType : ColumnType
  fields : List FieldProjection
  deriving DecidableEq, Repr

namespace KindSchema

/-- The relation of the kind's members. -/
def membership (k : KindSchema) : Relation := ⟨k.name, [("id", k.idType)]⟩

/-- The relations that encoding fills for the kind. -/
def inputs (k : KindSchema) : List Relation :=
  if k.isAbstract then [] else k.membership :: k.fields.map (·.toRelation k.idType)

end KindSchema

/-- Every member of the body is a member of the head. -/
structure Rule where
  head : String
  body : String
  deriving DecidableEq, Repr

/-- Relates each child to the node it is embedded in. -/
def parentRelation : Relation := ⟨"parent", [("parentId", .id), ("childId", .id)]⟩

/-- Holds the source span of every node. -/
def srcRelation : Relation := ⟨"src", [("id", .id), ("src", .symbol)]⟩

/-- The relations of a grammar: inputs, which encoding fills, and markers, which only rules do. -/
structure Schema where
  root : String
  registry : Registry
  inputs : List Relation
  markers : List Relation
  rules : List Rule
  /-- the kinds in grammar order -/
  kinds : List KindSchema
  deriving DecidableEq, Repr

namespace Schema

def kind? (s : Schema) (name : String) : Option KindSchema := s.kinds.find? (·.name == name)

/-- The kinds in the order of their names. -/
def kindsByName (s : Schema) : List KindSchema :=
  (Entries.ofList (s.kinds.map fun k => (k.name, k))).map (·.2)

def relations (s : Schema) : List Relation := s.inputs ++ s.markers

def relation? (s : Schema) (name : String) : Option Relation := s.relations.find? (·.name == name)

end Schema

/-- Facts beyond the fields of the tree: some from each node alone, some once for the whole. -/
structure Enrichment where
  /-- the relations filled, with the types they need -/
  declare : Registry → Except Error (List Relation × Registry)
  ofNode : Node → List Fact
  once : List Fact

namespace Enrichment

/-- No further facts. -/
def none : Enrichment := ⟨fun r => .ok ([], r), fun _ => [], []⟩

end Enrichment

end TreeFacts
