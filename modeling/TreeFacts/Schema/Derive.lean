import TreeFacts.Schema.Basic
import TreeFacts.Schema.SkipSet

namespace TreeFacts

namespace FieldProjection

/-- The relation of a field, with the types it needs. -/
def derive (r : Registry) (kind : String) (field : Field) :
    Except Error (FieldProjection × Registry) := do
  let (element, r) ← r.resolve field.type
  let (valueType, r) ← match field.shape with
    | .recordList => r.listType element
    | _ => .ok (element, r)
  return (⟨field.name, kind ++ "_" ++ field.name, field.shape, field.type, valueType⟩, r)

/-- The relations of fields, each derived with the types of those before it. -/
def deriveAll (kind : String) :
    Registry → List Field → Except Error (List FieldProjection × Registry)
  | r, [] => .ok ([], r)
  | r, field :: fields => do
    let (p, r) ← derive r kind field
    let (ps, r) ← deriveAll kind r fields
    return (p :: ps, r)

end FieldProjection

namespace KindSchema

/-- A kind with the relations of the fields that are not skipped. -/
def derive (skip : SkipSet) (r : Registry) (kind : NodeKind) :
    Except Error (KindSchema × Registry) := do
  let (idType, r) ← r.identifierType kind.name
  let fields := if kind.isAbstract then [] else
    kind.fields.filter fun field => !skip.contains kind.name field.name
  let (fields, r) ← FieldProjection.deriveAll kind.name r fields
  return (⟨kind.name, kind.base, kind.isAbstract, idType, fields⟩, r)

def deriveAll (skip : SkipSet) :
    Registry → List NodeKind → Except Error (List KindSchema × Registry)
  | r, [] => .ok ([], r)
  | r, kind :: kinds => do
    let (k, r) ← derive skip r kind
    let (ks, r) ← deriveAll skip r kinds
    return (k :: ks, r)

/-- A member is a member of the base, and one of a concrete kind of the root. -/
def rules (root : String) (k : KindSchema) : List Rule :=
  (if k.base = root then [] else [⟨k.base, k.name⟩]) ++
    (if k.isAbstract then [] else [⟨root, k.name⟩])

end KindSchema

namespace Schema

/-- The first name that stands in a list for the second time. -/
def repeated? : List String → List String → Option String
  | _, [] => none
  | seen, name :: names => if seen.contains name then some name else repeated? (name :: seen) names

/-- The relations of a grammar without those of skipped fields, and with those of an enrichment.
No two relations may have one name. -/
def derive (g : Grammar) (skip : SkipSet) (e : Enrichment) : Except Error Schema := do
  let r ← g.enums.foldlM Registry.registerEnum Registry.empty
  let r ← r.registerKinds g
  let (kinds, r) ← KindSchema.deriveAll skip r g.kinds
  let (derived, r) ← e.declare r
  let inputs := [parentRelation, srcRelation] ++ kinds.flatMap KindSchema.inputs ++ derived
  let markers := ⟨g.root, [("id", .id)]⟩ ::
    (kinds.filter KindSchema.isAbstract).map KindSchema.membership
  match repeated? [] ((inputs ++ markers).map (·.name)) with
  | some name => .error (.invalidGrammar (.relationDerivedTwice name))
  | none => return ⟨g.root, r, inputs, markers, kinds.flatMap (KindSchema.rules g.root), kinds⟩

end Schema

end TreeFacts
