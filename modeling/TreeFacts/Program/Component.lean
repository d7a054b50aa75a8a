import TreeFacts.Program.Statement

namespace TreeFacts.Program

/-- A component with the types for its parameters. -/
structure Base where
  component : String
  args : List ColumnType
  deriving DecidableEq, Repr

/-- What stands before the body of a component. -/
structure Header where
  name : String
  params : List String
  bases : List Base
  deriving DecidableEq, Repr

structure Component extends Header where
  statements : Statements
  deriving DecidableEq, Repr

def base? : Recogniser Base := fun cs => do
  let (name, rest) ← name? cs
  let (args, rest) := angled rest
  return (⟨name, (args.map columnTypes).getD []⟩, rest)

/-- The header of a component through the brace that opens the body. -/
def header? : Recogniser Header := fun cs => do
  let rest ← keyword? ".comp" cs
  let (name, rest) ← name? rest
  let (params, rest) := angled rest
  let params := ((params.map listed).getD []).map String.ofList
  let rest := skipBlanks rest
  match Text.dropFront? [':'] rest with
  | some rest =>
    let (bases, rest) ← before? '\x7b' rest
    return (⟨name, params, (findAll base? bases).map (·.2)⟩, rest)
  | none => return (⟨name, params, []⟩, ← Text.dropFront? ['\x7b'] rest)

/-- Whether a scan for a closing brace is inside a string, and there behind a backslash. -/
inductive Quoting where
  | outside
  | inside
  | escaped
  deriving DecidableEq, Repr

/-- The text before the brace that closes `depth` open ones, and what follows it. Braces in strings
do not count. -/
def body? : Quoting → Nat → Recogniser (List Char)
  | _, _, [] => none
  | .outside, depth, c :: cs =>
    if c = '\x7d' ∧ depth ≤ 1 then some ([], cs)
    else
      let depth := if c = '\x7b' then depth + 1 else if c = '\x7d' then depth - 1 else depth
      (body? (if c = '"' then .inside else .outside) depth cs).map fun (text, rest) =>
        (c :: text, rest)
  | .inside, depth, c :: cs =>
    (body? (if c = '\\' then .escaped else if c = '"' then .outside else .inside) depth cs).map
      fun (text, rest) => (c :: text, rest)
  | .escaped, depth, c :: cs =>
    (body? .inside depth cs).map fun (text, rest) => (c :: text, rest)

/-- A component cut out of a text: the text before it, its header and, if its brace is closed, its
body. -/
structure Cut where
  before : List Char
  header : Header
  body : Option (List Char)
  deriving DecidableEq, Repr

/-- The text before the first header, the header, and what follows it. -/
def firstHeader? : List Char → Option (List Char × Header × List Char)
  | [] => none
  | c :: cs =>
    match header? (c :: cs) with
    | some (header, rest) => some ([], header, rest)
    | none => (firstHeader? cs).map fun (before, found) => (c :: before, found)

/-- The components of a text in order and the text after the last. Nothing is cut behind a
component that is not closed. -/
def cuts : Nat → List Char → List Cut × List Char
  | 0, cs => ([], cs)
  | fuel + 1, cs =>
    match firstHeader? cs with
    | none => ([], cs)
    | some (before, header, inner) =>
      match body? .outside 1 inner with
      | none => ([⟨before, header, none⟩], [])
      | some (body, rest) =>
        let (more, rest) := cuts fuel rest
        (⟨before, header, some body⟩ :: more, rest)

/-- The text around the components, with a line break in place of each. -/
def remainder (found : List Cut × List Char) : List Char :=
  (found.1.flatMap fun cut => cut.before ++ ['\n']) ++ found.2

/-- The statements of a text and the components in it, each behind those nested in its body. `fuel`
bounds the nesting. -/
def scanIn : Nat → List Char → Except ParseFault (Statements × List Component)
  | 0, cs => (Statements.read cs).map (·, [])
  | fuel + 1, cs => do
    let found := cuts cs.length cs
    let components ← found.1.mapM fun cut =>
      match cut.body with
      | none => .error (.unterminatedComponent cut.header.name)
      | some body => do
        let (statements, nested) ← scanIn fuel body
        return nested ++ [{ cut.header with statements }]
    return (← Statements.read (remainder found), components.flatten)

def scan (cs : List Char) : Except ParseFault (Statements × List Component) := scanIn cs.length cs

end TreeFacts.Program
