import TreeFacts.Program.Component

namespace TreeFacts.Program

/-- What a program tells its users: types, relations, and the relations it writes. -/
structure Interface where
  types : List TypeDef
  relations : List Relation
  outputs : List String
  deriving DecidableEq, Repr

namespace Interface

instance : Append Interface :=
  ⟨fun a b => ⟨a.types ++ b.types, a.relations ++ b.relations, a.outputs ++ b.outputs⟩⟩

def empty : Interface := ⟨[], [], []⟩

def concat (parts : List Interface) : Interface := parts.foldl (· ++ ·) empty

end Interface

/-- Applies a change to the types that a definition refers to, and gives it a new name. -/
def mapTypeDef (rename : String → String) (change : ColumnType → ColumnType) : TypeDef → TypeDef
  | .subtype name base => .subtype (rename name) (change base)
  | .record name fields => .record (rename name) (fields.map fun (f, type) => (f, change type))
  | .union name branches =>
    .union (rename name) (branches.map fun b =>
      ⟨b.name, b.fields.map fun (f, type) => (f, change type)⟩)

/-- The types bound to parameters; of a repeated parameter the last binding counts. -/
def bind (bindings : List (String × ColumnType)) : ColumnType → ColumnType
  | .named name => (bindings.reverse.lookup name).getD (.named name)
  | type => type

/-- A name inside an instance. -/
def qualify (qualifier name : String) : String := qualifier ++ "." ++ name

/-- The component that a name stands for, which is the last declared under it. -/
def component? (components : List Component) (name : String) : Option Component :=
  components.reverse.find? (·.name == name)

/-- The names of the types that a component and its bases declare. -/
def localTypes (components : List Component) : Nat → Component → List String
  | 0, c => c.statements.types.map (·.name)
  | fuel + 1, c => c.statements.types.map (·.name) ++ c.bases.flatMap fun b =>
    match component? components b.component with
    | some c => localTypes components fuel c
    | none => []

/-- What a component itself declares, under the qualifier of an instance. -/
def ownInterface (c : Component) (qualifier : String) (change : ColumnType → ColumnType) :
    Interface where
  types := c.statements.types.map (mapTypeDef (qualify qualifier) change)
  relations := c.statements.relations.map fun r =>
    ⟨qualify qualifier r.name, r.columns.map fun (f, type) => (f, change type)⟩
  outputs := c.statements.outputs.map (qualify qualifier)

/-- How an instance changes the types its component refers to: parameters become their arguments,
and local types get the instance's qualifier. -/
def instanceType (components : List Component) (c : Component) (args : List ColumnType)
    (qualifier : String) (type : ColumnType) : ColumnType :=
  match bind (c.params.zip args) type with
  | .named name =>
    if (localTypes components components.length c).contains name then
      .named (qualify qualifier name)
    else .named name
  | type => type

/-- The interface of a component's instance: first that of its bases, under the same qualifier, then
its own, then that of the instances it makes. No component may come up inside itself, so no more
than all of them are ever open. -/
def instantiate (components : List Component) :
    Nat → List String → String → List ColumnType → String → Except ParseFault Interface
  | 0, _, name, _, _ => .error (.selfInstantiation name)
  | fuel + 1, opened, name, args, qualifier =>
    if opened.contains name then .error (.selfInstantiation name)
    else match component? components name with
      | none => .error (.unknownComponent name)
      | some c =>
        if c.params.length = args.length then do
          let opened := name :: opened
          let change := instanceType components c args qualifier
          let inherited ← c.bases.mapM fun b =>
            instantiate components fuel opened b.component
              (b.args.map (bind (c.params.zip args))) qualifier
          let made ← c.statements.inits.mapM fun i =>
            instantiate components fuel opened i.component (i.args.map change)
              (qualify qualifier i.instanceName)
          return .concat inherited ++ ownInterface c qualifier change ++ .concat made
        else .error (.typeArguments name c.params.length args.length)

end TreeFacts.Program
