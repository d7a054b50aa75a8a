import TreeFacts.Error
import TreeFacts.Program.Lexeme
import TreeFacts.Types.Basic

namespace TreeFacts.Program

/-- Makes an instance of a component under a name. -/
structure Init where
  instanceName : String
  component : String
  args : List ColumnType
  deriving DecidableEq, Repr

/-- The statements of a program, or of one component without those nested in it. -/
structure Statements where
  types : List TypeDef
  relations : List Relation
  outputs : List String
  inits : List Init
  deriving DecidableEq, Repr

def columnTypes (cs : List Char) : List ColumnType :=
  (listed cs).map fun part => .parse (String.ofList part)

/-- A name and a type with a colon between. -/
def fieldType (part : List Char) : Except ParseFault (String × ColumnType) :=
  match before? ':' part with
  | some (name, type) => .ok (String.ofList (Text.trim name), .parse (String.ofList type))
  | none => .error (.noFieldType (String.ofList part))

def fieldTypes (cs : List Char) : Except ParseFault FieldTypes := (listed cs).mapM fieldType

/-- The name that a type statement declares, and what follows the sign after it. -/
def typeHead? (sign : String) : Recogniser String := fun cs => do
  let rest ← keyword? ".type" cs
  let (name, rest) ← name? rest
  return (name, ← sign? sign rest)

/-- A type that refines another. -/
def subtype? : Recogniser TypeDef := fun cs => do
  let (name, rest) ← typeHead? "<:" cs
  let (base, rest) ← name? rest
  return (.subtype name (.ofName base), rest)

/-- A record's name with its fields in square brackets. -/
def record? : Recogniser (String × List Char) := fun cs => do
  let (name, rest) ← typeHead? "=" cs
  let rest ← Text.dropFront? ['['] rest
  let (fields, rest) ← before? ']' rest
  return ((name, fields), rest)

/-- A branch's name with its fields in braces. -/
def branch? : Recogniser (String × List Char) := fun cs => do
  let (name, rest) ← name? cs
  let rest ← Text.dropFront? ['\x7b'] (skipBlanks rest)
  let (fields, rest) ← before? '\x7d' rest
  return ((name, fields), rest)

/-- A tagged union's name with its branches. -/
def union? : Recogniser (String × List (String × List Char)) := fun cs => do
  let (name, rest) ← typeHead? "=" cs
  let (branches, rest) ← separated "|" branch? rest.length rest
  return ((name, branches), rest)

/-- A relation's name with its columns. -/
def declaration? : Recogniser (String × List Char) := fun cs => do
  let rest ← keyword? ".decl" cs
  let (name, rest) ← qualifiedName? rest
  let rest ← Text.dropFront? ['('] (skipBlanks rest)
  let (columns, rest) ← before? ')' rest
  return ((name, columns), rest)

/-- The names of the relations that a program writes. -/
def outputs? : Recogniser (List String) := fun cs => do
  let rest ← keyword? ".output" cs
  separated "," qualifiedName? rest.length rest

def init? : Recogniser Init := fun cs => do
  let rest ← keyword? ".init" cs
  let (name, rest) ← name? rest
  let rest ← sign? "=" rest
  let (component, rest) ← name? rest
  let (args, rest) := angled rest
  return (⟨name, component, (args.map columnTypes).getD []⟩, rest)

def recordType (found : String × List Char) : Except ParseFault TypeDef := do
  return .record found.1 (← fieldTypes found.2)

def unionBranch (found : String × List Char) : Except ParseFault Branch := do
  return ⟨found.1, ← fieldTypes found.2⟩

def unionType (found : String × List (String × List Char)) : Except ParseFault TypeDef := do
  return .union found.1 (← found.2.mapM unionBranch)

def relation (found : String × List Char) : Except ParseFault Relation := do
  return ⟨found.1, ← fieldTypes found.2⟩

/-- Applies a reader to what was found at each position. -/
def atPositions {α β : Type} (read : α → Except ParseFault β) (found : List (Nat × α)) :
    Except ParseFault (List (Nat × β)) :=
  found.mapM fun (p : Nat × α) => (read p.2).map (p.1, ·)

/-- The statements in a text without components. Each form of statement is looked for on its own;
types stand in the order of the text. -/
def Statements.read (cs : List Char) : Except ParseFault Statements := do
  let records ← atPositions recordType (findAll record? cs)
  let unions ← atPositions unionType (findAll union? cs)
  let types := (findAll subtype? cs ++ records ++ unions).mergeSort fun a b => a.1 ≤ b.1
  let relations ← (findAll declaration? cs).mapM fun (p : Nat × String × List Char) => relation p.2
  return ⟨types.map (·.2), relations, (findAll outputs? cs).flatMap (·.2),
    (findAll init? cs).map (·.2)⟩

end TreeFacts.Program
