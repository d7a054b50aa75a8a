import TreeFacts.Types.Store

namespace TreeFacts

/-- What can be asked of a registry. -/
inductive Operation where
  | define (d : TypeDef)
  | registerEnum (name : String)
  | registerRecord (name : String) (fields : FieldTypes)
  | registerUnion (name : String) (branches : List Branch)
  | registerKinds (g : Grammar)
  | identifierType (kind : String)
  | resolve (type : SemanticType)
  | listType (element : ColumnType)

namespace Operation

/-- An error, or the type if one was asked for. -/
abbrev Answer := Except Error (Option ColumnType)

/-- The operation on a registry. -/
def apply (r : Registry) : Operation → Except Error (Option ColumnType × Registry)
  | define d => (r.define d).map (none, ·)
  | registerEnum name => (r.registerEnum name).map (none, ·)
  | registerRecord name fields => (r.define (.record name fields)).map (none, ·)
  | registerUnion name branches => (r.define (.union name branches)).map (none, ·)
  | registerKinds g => (r.registerKinds g).map (none, ·)
  | identifierType kind => (r.identifierType kind).map (Prod.map some id)
  | resolve type => (r.resolve type).map (Prod.map some id)
  | listType element => (r.listType element).map (Prod.map some id)

/-- The operation on a store. -/
def perform (steps : Nat) : Operation → InPlace (Option ColumnType)
  | define d => do InPlace.define d; return none
  | registerEnum name => do InPlace.define (.subtype name .symbol); return none
  | registerRecord name fields => do InPlace.define (.record name fields); return none
  | registerUnion name branches => do InPlace.define (.union name branches); return none
  | registerKinds g => do InPlace.registerKinds steps g; return none
  | identifierType kind => some <$> InPlace.identifierType steps kind
  | resolve type => some <$> InPlace.resolve steps type
  | listType element => some <$> InPlace.listType element

/-- The answer of a registry, with the registry after it. An operation that fails changes
nothing. -/
def outcome (r : Registry) (op : Operation) : Answer × Registry :=
  match op.apply r with
  | .ok (type, r') => (.ok type, r')
  | .error e => (.error e, r)

/-- Operations on a registry one after the other, whatever the answer to each. -/
def applyAll (r : Registry) : List Operation → List Answer × Registry
  | [] => ([], r)
  | op :: ops =>
    let (answer, r) := op.outcome r
    let (answers, r) := applyAll r ops
    (answer :: answers, r)

/-- Operations on a store one after the other, whatever the answer to each. -/
def performAll (steps : Nat) (s : Store) : List Operation → Option (List Answer × Store)
  | [] => some ([], s)
  | op :: ops => do
    let (answer, s) ← op.perform steps s
    let (answers, s) ← performAll steps s ops
    return (answer :: answers, s)

/-- The grammar whose kinds an operation with the given answer has registered. -/
def registered? : Operation × Answer → Option Grammar
  | (registerKinds g, .ok _) => some g
  | _ => none

/-- The grammar whose kinds were registered last. -/
def lastGrammar? (ops : List Operation) (answers : List Answer) : Option Grammar :=
  (ops.zip answers).reverse.findSome? registered?

end Operation

end TreeFacts
