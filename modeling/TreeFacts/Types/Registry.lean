import TreeFacts.Error
import TreeFacts.Grammar

namespace TreeFacts

/-- The kinds of a grammar, each with its base. -/
structure Hierarchy where
  root : String
  bases : List (String × String)
  deriving DecidableEq, Repr

namespace Hierarchy

inductive ChainFault where
  | cyclic
  | undeclared (name : String)
  deriving DecidableEq, Repr

/-- A kind followed by the kinds above it, the root last, in `fuel` steps at most. -/
def chainIn (h : Hierarchy) : Nat → String → Except ChainFault (List String)
  | fuel, kind =>
    if kind = h.root then .ok [kind]
    else match fuel with
      | 0 => .error .cyclic
      | fuel + 1 =>
        match h.bases.lookup kind with
        | none => .error (.undeclared kind)
        | some base => (h.chainIn fuel base).map (kind :: ·)

/-- A chain without repetitions has at most one step per kind. -/
def chain (h : Hierarchy) (kind : String) : Except ChainFault (List String) :=
  h.chainIn (h.bases.length + 1) kind

/-- The kinds with their bases; a kind is neither the root nor declared twice. -/
def collect (root : String) :
    List (String × String) → List NodeKind → Except GrammarFault (List (String × String))
  | bases, [] => .ok bases
  | bases, kind :: rest =>
    if kind.name = root then .error (.kindShadowsRoot kind.name)
    else if (bases.lookup kind.name).isSome then .error (.kindDeclaredTwice kind.name)
    else collect root (bases ++ [(kind.name, kind.base)]) rest

/-- Whether the chain of a kind reaches the root. -/
def check (h : Hierarchy) (kind : NodeKind) : Except GrammarFault PUnit :=
  match h.chain kind.name with
  | .ok _ => .ok ⟨⟩
  | .error .cyclic => .error (.cyclicBases kind.name)
  | .error (.undeclared base) => .error (.undeclaredBase kind.name base)

def ofGrammar (g : Grammar) : Except GrammarFault Hierarchy := do
  let h : Hierarchy := ⟨g.root, ← collect g.root [] g.kinds⟩
  g.kinds.forM h.check
  return h

end Hierarchy

/-- The type definitions of a program, in the order in which they were made. -/
structure Registry where
  defs : List TypeDef
  /-- the kinds of the grammar registered last -/
  hierarchy : Option Hierarchy
  deriving DecidableEq, Repr

namespace Registry

/-- The registry with nothing but the universal identifier type and the type of truth values. -/
def empty : Registry := ⟨[.subtype "id" .number, .subtype "bool" .number], none⟩

def get? (r : Registry) (name : String) : Option TypeDef := r.defs.find? (·.name == name)

def push (r : Registry) (d : TypeDef) : Registry := { r with defs := r.defs ++ [d] }

/-- Adds a definition. The same definition may be made again, another one under its name may not. -/
def define (r : Registry) (d : TypeDef) : Except Error Registry :=
  match r.get? d.name with
  | none => .ok (r.push d)
  | some existing =>
    if existing = d then .ok r else .error (.invalidGrammar (.typeDefinedTwice d.name))

/-- Adds definitions one after the other. -/
def defineAll (r : Registry) (defs : List TypeDef) : Except Error Registry :=
  defs.foldlM define r

/-- Adds an enumeration, whose values are symbols. -/
def registerEnum (r : Registry) (name : String) : Except Error Registry :=
  r.define (.subtype name .symbol)

/-- Takes over the kinds of a grammar, if the bases of each lead to the root. -/
def registerKinds (r : Registry) (g : Grammar) : Except Error Registry :=
  match Hierarchy.ofGrammar g with
  | .ok h => .ok { r with hierarchy := some h }
  | .error fault => .error (.invalidGrammar fault)

/-- A kind followed by the kinds above it. Without a grammar only the empty name stands for one,
the root. -/
def ancestors (r : Registry) (kind : String) : Except Error (List String) :=
  match (r.hierarchy.getD ⟨"", []⟩).chain kind with
  | .ok chain => .ok chain
  | .error _ => .error (.unknownKindType kind)

/-- The identifier type of the first kind of a chain. Each kind but the root has one of its own,
which refines that of its base and is defined when it is first asked for. -/
def internChain (r : Registry) : List String → ColumnType × Registry
  | kind :: above :: rest =>
    let (base, r) := r.internChain (above :: rest)
    let name := kind ++ "Id"
    (.named name, if (r.get? name).isSome then r else r.push (.subtype name base))
  | _ => (.id, r)

/-- The identifier type of a kind. -/
def identifierType (r : Registry) (kind : String) : Except Error (ColumnType × Registry) :=
  match r.hierarchy with
  | none => .error (.unknownKindType kind)
  | some _ => (r.ancestors kind).map r.internChain

/-- The first kind of a chain that is on all the others as well. -/
def nearestCommon? : List (List String) → Option String
  | [] => none
  | first :: rest => first.find? fun kind => rest.all (·.contains kind)

/-- The identifier type of the nearest kind above all the given ones. -/
def commonIdentifierType (r : Registry) (kinds : List String) :
    Except Error (ColumnType × Registry) := do
  match nearestCommon? (← kinds.mapM r.ancestors) with
  | some kind => r.identifierType kind
  | none => return (.id, r)

/-- The column type of a field's values. -/
def resolve (r : Registry) : SemanticType → Except Error (ColumnType × Registry)
  | .number => .ok (.number, r)
  | .text | .nodeOrKeyword _ => .ok (.symbol, r)
  | .bool => .ok (.bool, r)
  | .anyNode => .ok (.id, r)
  | .node kind => r.identifierType kind
  | .nodeUnion kinds => r.commonIdentifierType kinds
  | .enumeration name | .record name | .union name =>
    if (r.get? name).isSome then .ok (.named name, r) else .error (.unknownType name)

/-- The type of lists: a record of the first element and the rest. -/
def listType (r : Registry) (element : ColumnType) : Except Error (ColumnType × Registry) :=
  let name := element.name ++ "List"
  (r.define (.record name [("head", element), ("tail", .named name)])).map fun r =>
    (.named name, r)

def record? (r : Registry) (name : String) : Option FieldTypes :=
  match r.get? name with
  | some (.record _ fields) => some fields
  | _ => none

def union? (r : Registry) (name : String) : Option (List Branch) :=
  match r.get? name with
  | some (.union _ branches) => some branches
  | _ => none

/-- Whether the name is that of a record whose last field is of the record's own type. -/
def isConsList (r : Registry) (name : String) : Bool :=
  match (r.record? name).bind List.getLast? with
  | some (_, type) => type == .named name
  | none => false

/-- The class of a type whose chain of subtypes ends in `fuel` steps. -/
def classifyIn (r : Registry) : Nat → ColumnType → Except Error (Option TypeClass)
  | 0, _ => .ok none
  | _ + 1, .number => .ok (some .number)
  | _ + 1, .symbol => .ok (some .symbol)
  | fuel + 1, .named name =>
    if name = "bool" then .ok (some .bool)
    else if name = "id" then .ok (some .nodeId)
    else match r.get? name with
      | some (.subtype _ base) => r.classifyIn fuel base
      | some (.record _ _) => .ok (some .record)
      | some (.union _ _) => .ok (some .union)
      | none => .error (.unknownType name)

/-- The class of a type, found along its chain of subtypes. A chain without repetitions has at most
one step per definition. -/
def classify (r : Registry) (type : ColumnType) : Except Error TypeClass := do
  match ← r.classifyIn (r.defs.length + 1) type with
  | some c => return c
  | none => .error (.unknownType type.name)

end Registry

end TreeFacts
