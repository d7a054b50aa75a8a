import TreeFacts.Program.Comment
import TreeFacts.Program.Expansion
import TreeFacts.Types.Registry

namespace TreeFacts.Program.Interface

/-- Reads the declarations of a program, with those of components in every instance made of them. -/
def parse (text : String) : Except Error Interface :=
  let read : Except ParseFault Interface := do
    let (statements, components) ← scan (removeComments text.toList)
    let made ← statements.inits.mapM fun i =>
      instantiate components (components.length + 1) [] i.component i.args i.instanceName
    return ⟨statements.types, statements.relations, statements.outputs⟩ ++ .concat made
  match read with
  | .ok i => .ok i
  | .error fault => .error (.parse fault)

def relation? (i : Interface) (name : String) : Option Relation :=
  i.relations.find? (·.name == name)

/-- The relations with the given names, in the order of the names. -/
def select (i : Interface) (names : List String) : Except Error (List Relation) :=
  names.mapM fun name =>
    match i.relation? name with
    | some r => .ok r
    | none => .error (.unknownRelation name)

/-- Adds the program's types to a registry. -/
def register (i : Interface) (r : Registry) : Except Error Registry := r.defineAll i.types

end TreeFacts.Program.Interface
