import TreeFacts.Types.Registry

namespace TreeFacts

/-- Text that is safe in a symbol column: double quotes become single ones, line breaks are spelled
with a backslash, and nothing else outside printable ASCII remains. -/
def sanitizeChar (c : Char) : List Char :=
  if c = '"' then ['\'']
  else if c = '\n' then ['\\', 'n']
  else if c = '\r' then ['\\', 'r']
  else if ' ' ≤ c ∧ c ≤ '~' then [c]
  else []

def sanitize (s : String) : String := String.ofList (s.toList.flatMap sanitizeChar)

/-- The field a value stands in, with the types that are known. -/
structure FieldContext where
  registry : Registry
  kind : String
  field : String

namespace FieldContext

def fault (c : FieldContext) (f : FieldFault) : Error := .fieldType c.kind c.field f

/-- A value that is there, or else a fault. -/
def require {α : Type} (c : FieldContext) (f : FieldFault) : Option α → Except Error α
  | some a => .ok a
  | none => .error (c.fault f)

end FieldContext

/-- What a field value can be read as: a value of a given type, or values for the given fields of
a record or a branch, of which null has none. -/
structure Reading where
  value : ColumnType → Except Error FactValue
  fields : String → FieldTypes → Except Error (Option (List FactValue))

namespace Reading

/-- The reading of a value by the class of the type: numbers, truth values, references and text by
what the value is, a record by its fields, a tagged union by the branch it names. -/
def ofValue (c : FieldContext) (v : Value)
    (fields : String → FieldTypes → Except Error (Option (List FactValue)))
    (branch : Option (String × Reading)) : Reading where
  fields := fields
  value type := do
    match ← c.registry.classify type with
    | .number => (c.require (.noNumber (some type)) v.int?).map .number
    | .bool => (c.require (.noBoolean (some type)) v.bool?).map .ofBool
    | .nodeId =>
      if v.isNull then return .number absentId
      else (c.require (.noReference (some type)) v.nodeId?).map .number
    | .symbol => (c.require (.noText (some type)) v.text?).map fun s => .symbol (sanitize s)
    | .record =>
      match c.registry.record? type.name with
      | none => .error (.unknownType type.name)
      | some fts =>
        match ← fields type.name fts with
        | some vs => return .record vs
        | none => return .nil
    | .union =>
      match c.registry.union? type.name with
      | none => .error (.unknownType type.name)
      | some branches => do
        let (tag, args) ← c.require (.noBranch type.name) branch
        let b ← c.require (.unknownBranch tag type.name) (branches.find? (·.name == tag))
        if b.fields.isEmpty then return .branch b.name []
        return .branch b.name
          (← c.require (.missingArguments tag) (← args.fields b.name b.fields))

/-- The reading of null. -/
def absent (c : FieldContext) : Reading := ofValue c .null (fun _ _ => .ok none) none

/-- A value without parts gives no fields. -/
def noFields (c : FieldContext) (owner : String) (fts : FieldTypes) :
    Except Error (Option (List FactValue)) :=
  .error (c.fault (.fieldCount fts.length owner))

/-- A list gives fields in order, if it has as many elements. -/
def positional (c : FieldContext) (readings : List Reading) (owner : String) (fts : FieldTypes) :
    Except Error (Option (List FactValue)) :=
  if readings.length = fts.length then
    ((readings.zip fts).mapM fun (p : Reading × String × ColumnType) => p.1.value p.2.2).map some
  else noFields c owner fts

/-- A map gives fields by name; those it does not mention are null. -/
def named (c : FieldContext) (readings : List (String × Reading)) (_owner : String)
    (fts : FieldTypes) : Except Error (Option (List FactValue)) :=
  (fts.mapM fun (field : String × ColumnType) =>
    ((readings.lookup field.1).getD (absent c)).value field.2).map some

/-- The one entry of a map that has no other. -/
def only? : List (String × Reading) → Option (String × Reading)
  | [entry] => some entry
  | _ => none

mutual

/-- The reading of a field value. Text names a branch without arguments, a map with one entry a
branch with the arguments it holds. -/
def of (c : FieldContext) : Value → Reading
  | .null => absent c
  | .bool b => ofValue c (.bool b) (noFields c) none
  | .int n => ofValue c (.int n) (noFields c) none
  | .text s => ofValue c (.text s) (noFields c) (some (s, absent c))
  | .node n => ofValue c (.node n) (noFields c) none
  | .list items => ofValue c (.list items) (positional c (ofItems c items)) none
  | .map entries =>
    let readings := ofEntries c entries
    ofValue c (.map entries) (named c readings) (only? readings)

def ofItems (c : FieldContext) : List Value → List Reading
  | [] => []
  | v :: rest => of c v :: ofItems c rest

def ofEntries (c : FieldContext) : List (String × Value) → List (String × Reading)
  | [] => []
  | (key, v) :: rest => (key, of c v) :: ofEntries c rest

end

end Reading

end TreeFacts
