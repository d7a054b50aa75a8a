import TreeFacts.Text.Basic

namespace TreeFacts

/-- The type of a column. -/
inductive ColumnType where
  | number
  | symbol
  /-- a type with a definition of its own -/
  | named (name : String)
  deriving DecidableEq, Repr

namespace ColumnType

/-- The universal type of node identifiers. -/
def id : ColumnType := named "id"

/-- The type of truth values, which are 0 or 1. -/
def bool : ColumnType := named "bool"

def name : ColumnType → String
  | number => "number"
  | symbol => "symbol"
  | named name => name

def ofName (name : String) : ColumnType :=
  if name = "number" then number else if name = "symbol" then symbol else named name

/-- Reads a type as it is written in a program, between blanks. -/
def parse (text : String) : ColumnType := ofName (String.ofList (Text.trim text.toList))

end ColumnType

/-- Named fields in order. -/
abbrev FieldTypes := List (String × ColumnType)

/-- One alternative of a tagged union. -/
structure Branch where
  name : String
  fields : FieldTypes
  deriving DecidableEq, Repr

/-- The definition of a type. -/
inductive TypeDef where
  | subtype (name : String) (base : ColumnType)
  | record (name : String) (fields : FieldTypes)
  | union (name : String) (branches : List Branch)
  deriving DecidableEq, Repr

namespace TypeDef

def name : TypeDef → String
  | subtype name _ => name
  | record name _ => name
  | union name _ => name

end TypeDef

/-- How the values of a type are read and what they stand for. -/
inductive TypeClass where
  | number
  | symbol
  | bool
  | nodeId
  | record
  | union
  deriving DecidableEq, Repr

/-- A relation's name and its columns in order. -/
structure Relation where
  name : String
  columns : FieldTypes
  deriving DecidableEq, Repr

namespace Relation

def arity (r : Relation) : Nat := r.columns.length

/-- The position of the first column with the given name. -/
def column? (r : Relation) (name : String) : Option Nat := r.columns.findIdx? (·.1 == name)

end Relation

end TreeFacts
