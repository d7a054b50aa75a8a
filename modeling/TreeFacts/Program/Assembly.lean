import TreeFacts.Schema.Basic

namespace TreeFacts

/-- Fields as a program declares them. -/
def FieldTypes.render (fields : FieldTypes) : String :=
  ", ".intercalate (fields.map fun (name, type) => name ++ ": " ++ type.name)

/-- The statement that declares the type. -/
def TypeDef.render : TypeDef → String
  | .subtype name base => ".type " ++ name ++ " <: " ++ base.name
  | .record name fields => ".type " ++ name ++ " = [" ++ FieldTypes.render fields ++ "]"
  | .union name branches =>
    ".type " ++ name ++ " = " ++ " | ".intercalate (branches.map fun b =>
      b.name ++ " \x7b" ++ FieldTypes.render b.fields ++ "\x7d")

/-- The statement that declares the relation. -/
def Relation.render (r : Relation) : String :=
  ".decl " ++ r.name ++ "(" ++ FieldTypes.render r.columns ++ ")"

/-- One statement per definition. -/
def Registry.render (r : Registry) : String := String.join (r.defs.map fun d => d.render ++ "\n")

def Rule.render (r : Rule) : String := r.head ++ "(id) :- " ++ r.body ++ "(id)."

/-- Types, declarations and rules as a program. -/
def Schema.render (s : Schema) : String :=
  "// Types\n" ++ s.registry.render ++
  "\n// Relations\n" ++ String.join (s.relations.map fun r => r.render ++ "\n") ++
  "\n// Membership\n" ++ String.join (s.rules.map fun r => r.render ++ "\n")

namespace Program

/-- The statement that binds a relation to its fact file. -/
def fileDirective (keyword relation : String) : String :=
  keyword ++ " " ++ relation ++ "(IO=file, filename=\"" ++ relation ++ ".csv\", rfc4180=true)\n"

/-- A complete program: the schema, its inputs, the rules, and the outputs if there are any. -/
def assemble (s : Schema) (rules : String) (outputs : List Relation) : String :=
  s.render ++
  "\n// Inputs\n" ++ String.join (s.inputs.map fun r => fileDirective ".input" r.name) ++
  "\n// Rules\n" ++ String.ofList (Text.trimEnd rules.toList) ++ "\n" ++
  if outputs.isEmpty then ""
  else "\n// Outputs\n" ++ String.join (outputs.map fun r => fileDirective ".output" r.name)

end Program

end TreeFacts
