import TreeFacts.Json.Literal

namespace TreeFacts.Json

/-- How closely a value is looked at: in full, save the members it sets aside by key, or only for
its form, which leaves open whether its strings are text. -/
inductive Care where
  | full (setsAside : String → Bool)
  | form

namespace Care

/-- The care for what stands inside a value. -/
def inner : Care → Care
  | full _ => full fun _ => false
  | form => form

def forMember : Care → String → Care
  | full setsAside, key => if setsAside key then form else full fun _ => false
  | form, _ => form

def text? : Care → List Char → Option String
  | full _, raw => stringText? raw
  | form, raw => (pieces? raw).map fun _ => ""

end Care

mutual

/-- One value and what follows it. `depth` bounds the nesting of arrays and objects, `fuel` the
calls. -/
def readValue : Nat → Care → Nat → List Char → Option (Json × List Char)
  | 0, _, _, _ => none
  | fuel + 1, care, depth, cs =>
    match skipSpace cs with
    | 'n' :: 'u' :: 'l' :: 'l' :: rest => some (null, rest)
    | 't' :: 'r' :: 'u' :: 'e' :: rest => some (bool true, rest)
    | 'f' :: 'a' :: 'l' :: 's' :: 'e' :: rest => some (bool false, rest)
    | '"' :: rest => do
      let (raw, rest) ← splitString rest
      return (str (← care.text? raw), rest)
    | '[' :: rest =>
      match depth, skipSpace rest with
      | 0, _ => none
      | _ + 1, ']' :: rest => some (arr [], rest)
      | depth + 1, rest => (readItems fuel care.inner depth rest).map fun (items, rest) =>
        (arr items, rest)
    | '\x7b' :: rest =>
      match depth, skipSpace rest with
      | 0, _ => none
      | _ + 1, '\x7d' :: rest => some (obj [], rest)
      | depth + 1, rest => (readMembers fuel care depth rest).map fun (members, rest) =>
        (obj members, rest)
    | cs => number? cs

/-- The items of an array up to its closing bracket. -/
def readItems : Nat → Care → Nat → List Char → Option (List Json × List Char)
  | 0, _, _, _ => none
  | fuel + 1, care, depth, cs => do
    let (item, rest) ← readValue fuel care depth cs
    match skipSpace rest with
    | ',' :: rest => do
      let (items, rest) ← readItems fuel care depth rest
      return (item :: items, rest)
    | ']' :: rest => return ([item], rest)
    | _ => none

/-- The members of an object up to its closing brace. -/
def readMembers : Nat → Care → Nat → List Char → Option (List (String × Json) × List Char)
  | 0, _, _, _ => none
  | fuel + 1, care, depth, cs =>
    match skipSpace cs with
    | '"' :: rest => do
      let (raw, rest) ← splitString rest
      let key ← care.text? raw
      match skipSpace rest with
      | ':' :: rest => do
        let (value, rest) ← readValue fuel (care.forMember key) depth rest
        match skipSpace rest with
        | ',' :: rest => do
          let (members, rest) ← readMembers fuel care depth rest
          return ((key, value) :: members, rest)
        | '\x7d' :: rest => return ([(key, value)], rest)
        | _ => none
      | _ => none
    | _ => none

end

/-- A whole text as one document, nested to `depth` at most. -/
def parseTo (care : Care) (depth : Nat) (text : String) : Option Json :=
  let cs := text.toList
  match readValue (2 * cs.length + 2) care depth cs with
  | some (value, rest) => if (skipSpace rest).isEmpty then some value else none
  | none => none

/-- The greatest nesting of arrays and objects that is read. -/
def maxDepth : Nat := 127

def parse (text : String) : Option Json := parseTo (.full fun _ => false) maxDepth text

/-- Reads a document of whose top-level members only those with the given keys matter; the others
are checked for form alone, however deep they nest. -/
def parseFor (keys : List String) (text : String) : Option Json :=
  parseTo (.full fun key => !keys.contains key) text.length text

end TreeFacts.Json
