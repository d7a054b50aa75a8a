import TreeFacts.Entries
import TreeFacts.Error
import TreeFacts.Types.Basic

namespace TreeFacts

/-- Facts under the relations they belong to, relations by name, tuples in the order they came. -/
structure FactSet where
  tables : Entries (Relation × List Tuple)
  deriving DecidableEq

namespace FactSet

def empty : FactSet := ⟨[]⟩

def table? (fs : FactSet) (name : String) : Option (Relation × List Tuple) := fs.tables.lookup name

/-- Opens a relation for tuples. A relation that is open already stays as it is. -/
def declare (fs : FactSet) (r : Relation) : FactSet :=
  match fs.table? r.name with
  | some _ => fs
  | none => ⟨Entries.insert r.name (r, []) fs.tables⟩

def ofRelations (relations : List Relation) : FactSet := relations.foldl declare empty

def add (fs : FactSet) (name : String) (t : Tuple) : Except Error FactSet :=
  match fs.table? name with
  | none => .error (.unknownRelation name)
  | some (r, tuples) =>
    if t.length = r.arity then .ok ⟨Entries.insert name (r, tuples ++ [t]) fs.tables⟩
    else .error (.arityMismatch name r.arity t.length)

/-- Adds facts one after the other. -/
def addAll (fs : FactSet) (facts : List Fact) : Except Error FactSet :=
  facts.foldlM (fun fs fact => fs.add fact.1 fact.2) fs

def facts (fs : FactSet) (name : String) : Except Error (List Tuple) :=
  match fs.table? name with
  | some (_, tuples) => .ok tuples
  | none => .error (.unknownRelation name)

def relation? (fs : FactSet) (name : String) : Option Relation := (fs.table? name).map (·.1)

def names (fs : FactSet) : List String := fs.tables.map (·.1)

def relations (fs : FactSet) : List Relation := fs.tables.map (·.2.1)

/-- How many tuples there are in all. -/
def size (fs : FactSet) : Nat := (fs.tables.flatMap (·.2.2)).length

end FactSet

end TreeFacts
