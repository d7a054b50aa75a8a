import TreeFacts.Encoding.Field
import TreeFacts.Fact.Set
import TreeFacts.Schema.Basic
import TreeFacts.Tree.Index

namespace TreeFacts

/-- Facts with the warnings that came up on the way to them. -/
structure Encoded where
  facts : List Fact
  warnings : List Warning

namespace Encoded

instance : Append Encoded := ⟨fun a b => ⟨a.facts ++ b.facts, a.warnings ++ b.warnings⟩⟩

end Encoded

namespace Schema

variable (s : Schema)

/-- The facts of one field of a node. A field that is not there counts as null. -/
def fieldFacts (kind : KindSchema) (n : Node) (p : FieldProjection) : Except Error Encoded := do
  let c : FieldContext := ⟨s.registry, kind.name, p.field⟩
  let v := (n.field? p.field).getD .null
  let tuples ← p.tuples c (.number n.id) v
  return ⟨tuples.map (p.relation, ·),
    if p.isAmbiguous c v then [⟨kind.name, p.field, n.id⟩] else []⟩

/-- The facts of a list of fields. -/
def fieldsFacts (kind : KindSchema) (n : Node) : List FieldProjection → Except Error Encoded
  | [] => .ok ⟨[], []⟩
  | p :: ps => do return (← s.fieldFacts kind n p) ++ (← fieldsFacts kind n ps)

/-- What holds of a node whatever its fields are: its kind, its span and what it is embedded in. -/
def nodeFacts (kind : KindSchema) (v : Visit) : List Fact :=
  let id := FactValue.number v.2.id
  [(kind.name, [id]), (srcRelation.name, [id, .symbol (sanitize v.2.src)])] ++
    match v.1 with
    | some parent => [(parentRelation.name, [.number parent.id, id])]
    | none => []

/-- The facts of one node of a concrete kind. -/
def visitFacts (v : Visit) : Except Error Encoded :=
  match (s.kind? v.2.kind).filter fun k => !k.isAbstract with
  | none => .error (.unknownNodeKind v.2.kind)
  | some kind => do
    return ⟨nodeFacts kind v, []⟩ ++ (← s.fieldsFacts kind v.2 kind.fields)

/-- The facts of nodes with identifiers that are not negative, not among those seen, and not
repeated. -/
def walkFacts (e : Enrichment) : List NodeId → List Visit → Except Error Encoded
  | _, [] => .ok ⟨[], []⟩
  | seen, v :: rest =>
    if v.2.id < 0 || seen.contains v.2.id then .error (.identifierConflict v.2.id)
    else do
      let encoded ← s.visitFacts v
      return encoded ++ ⟨e.ofNode v.2, []⟩ ++ (← walkFacts e (v.2.id :: seen) rest)

/-- The facts of a forest, with all its warnings. -/
def encodeAll (e : Enrichment) (roots : List Node) : Except Error (FactSet × List Warning) := do
  let encoded ← s.walkFacts e [] (walkAll roots)
  let facts ← (FactSet.ofRelations s.inputs).addAll (encoded.facts ++ e.once)
  return (facts, encoded.warnings)

end Schema

end TreeFacts
