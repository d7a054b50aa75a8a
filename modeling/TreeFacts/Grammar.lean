namespace TreeFacts

/-- How a field's values are laid out on a node. -/
inductive FieldShape where
  /-- exactly one value -/
  | scalar
  /-- one value or none -/
  | optional
  /-- a list without holes -/
  | array
  /-- a list in which elements may be null -/
  | sparseArray
  /-- values under text keys -/
  | map
  /-- a list stored as one value, a chain of cells -/
  | recordList
  deriving DecidableEq, Repr

/-- What a field's values mean. -/
inductive SemanticType where
  | number
  | text
  | bool
  /-- a keyword of the named enumeration -/
  | enumeration (name : String)
  /-- a reference to a node of the named kind, concrete or abstract -/
  | node (kind : String)
  /-- a reference to a node of any kind -/
  | anyNode
  /-- a reference to a node of one of several kinds -/
  | nodeUnion (kinds : List String)
  /-- a node of the named kind or a bare keyword that stands for one -/
  | nodeOrKeyword (kind : String)
  /-- a value of the named record type -/
  | record (name : String)
  /-- a value of the named tagged union -/
  | union (name : String)
  deriving DecidableEq, Repr

namespace SemanticType

/-- Whether values are references to nodes. -/
def isReference : SemanticType → Bool
  | node _ | anyNode | nodeUnion _ => true
  | _ => false

end SemanticType

structure Field where
  name : String
  shape : FieldShape
  type : SemanticType
  deriving DecidableEq, Repr

/-- A kind of node. No node is of an abstract kind; it refines identifiers and gathers the members
of the kinds below it. -/
structure NodeKind where
  name : String
  base : String
  isAbstract : Bool
  fields : List Field
  deriving DecidableEq, Repr

namespace NodeKind

def concrete (name base : String) (fields : List Field) : NodeKind := ⟨name, base, false, fields⟩

def abstract (name base : String) : NodeKind := ⟨name, base, true, []⟩

end NodeKind

/-- The kinds of a language's syntax trees. Each kind has one base; the bases lead to the root. -/
structure Grammar where
  root : String
  enums : List String
  kinds : List NodeKind
  deriving DecidableEq, Repr

namespace Grammar

def kind? (g : Grammar) (name : String) : Option NodeKind := g.kinds.find? (·.name == name)

def concreteKinds (g : Grammar) : List NodeKind := g.kinds.filter fun k => !k.isAbstract

end Grammar

end TreeFacts
