import TreeFacts.Entries
import TreeFacts.Types.Registry

namespace TreeFacts

/-- A registry that is changed in place. The position of each definition is entered under its
name. -/
structure Store extends Registry where
  byName : Entries Nat
  deriving DecidableEq, Repr

namespace Store

def get? (s : Store) (name : String) : Option TypeDef := (s.byName.lookup name).bind (s.defs[·]?)

/-- Adds a definition behind the others. An entry under its name is replaced. -/
def push (s : Store) (d : TypeDef) : Store :=
  ⟨s.toRegistry.push d, Entries.insert d.name s.defs.length s.byName⟩

/-- The store with nothing but the builtin types. -/
def new : Store :=
  (push ⟨⟨[], none⟩, []⟩ (.subtype "id" .number)).push (.subtype "bool" .number)

end Store

/-- An operation on a store. What it did before an error stays done. There is no outcome where the
steps allowed to a search were too few for it to end. -/
abbrev InPlace (α : Type) := ExceptT Error (StateT Store Option) α

namespace InPlace

def unfinished {α : Type} : InPlace α := fun _ => none

def define (d : TypeDef) : InPlace PUnit := do
  match (← get).get? d.name with
  | none => modify (·.push d)
  | some existing =>
    if existing = d then return ⟨⟩ else throw (.invalidGrammar (.typeDefinedTwice d.name))

/-- Follows the bases of a kind until the root is met. A kind that is met for the second time ends
the search as well. -/
def follow (h : Hierarchy) (kind : String) : Nat → List String → String → InPlace PUnit
  | 0, _, _ => unfinished
  | steps + 1, seen, current =>
    if current = h.root then return ⟨⟩
    else if current ∈ seen then throw (.invalidGrammar (.cyclicBases kind))
    else match h.bases.lookup current with
      | none => throw (.invalidGrammar (.undeclaredBase kind current))
      | some base => follow h kind steps (current :: seen) base

/-- Takes over the kinds of a grammar, once the bases of each have been followed to the root. -/
def registerKinds (steps : Nat) (g : Grammar) : InPlace PUnit :=
  match Hierarchy.collect g.root [] g.kinds with
  | .error fault => throw (.invalidGrammar fault)
  | .ok bases => do
    let h : Hierarchy := ⟨g.root, bases⟩
    g.kinds.forM fun kind => follow h kind.name steps [] kind.name
    modify ({ · with hierarchy := some h })

/-- The kinds found so far, with those from the base of the last one up to the root. -/
def climb (kind : String) : Nat → List String → String → InPlace (List String)
  | 0, _, _ => unfinished
  | steps + 1, found, current => do
    let h := (← get).hierarchy.getD ⟨"", []⟩
    if current = h.root then return found
    else match h.bases.lookup current with
      | none => throw (.unknownKindType kind)
      | some base => climb kind steps (found ++ [base]) base

def ancestors (steps : Nat) (kind : String) : InPlace (List String) := climb kind steps [kind] kind

/-- The identifier type of a kind, defined after that of its base unless the name is there. -/
def identifierType : Nat → String → InPlace ColumnType
  | 0, _ => unfinished
  | steps + 1, kind => do
    let h? := (← get).hierarchy
    if h?.map (·.root) = some kind then return .id
    else match h?.bind (·.bases.lookup kind) with
      | none => throw (.unknownKindType kind)
      | some base => do
        let above ← identifierType steps base
        let name := kind ++ "Id"
        modify fun s => if (s.get? name).isSome then s else s.push (.subtype name above)
        return .named name

def commonIdentifierType (steps : Nat) (kinds : List String) : InPlace ColumnType := do
  match Registry.nearestCommon? (← kinds.mapM (ancestors steps)) with
  | some kind => identifierType steps kind
  | none => return .id

/-- The type of a name, if it is defined. -/
def namedType (name : String) : InPlace ColumnType := do
  if ((← get).get? name).isSome then return .named name else throw (.unknownType name)

def resolve (steps : Nat) : SemanticType → InPlace ColumnType
  | .number => return .number
  | .text | .nodeOrKeyword _ => return .symbol
  | .bool => return .bool
  | .anyNode => return .id
  | .node kind => identifierType steps kind
  | .nodeUnion kinds => commonIdentifierType steps kinds
  | .enumeration name | .record name | .union name => namedType name

def listType (element : ColumnType) : InPlace ColumnType := do
  let name := element.name ++ "List"
  define (.record name [("head", element), ("tail", .named name)])
  return .named name

end InPlace

end TreeFacts
