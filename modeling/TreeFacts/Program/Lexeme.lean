import TreeFacts.Text.Basic

namespace TreeFacts.Program

/-- Recognises something at the front of a text and gives what follows it. -/
abbrev Recogniser (α : Type) := List Char → Option (α × List Char)

def skipBlanks (cs : List Char) : List Char := cs.dropWhile Text.isBlank

/-- What follows a word and at least one blank. -/
def keyword? (word : String) (cs : List Char) : Option (List Char) := do
  let rest ← Text.dropFront? word.toList cs
  guard ((rest.takeWhile Text.isBlank).length ≠ 0)
  return skipBlanks rest

/-- What follows a sign and the blanks around it. -/
def sign? (sign : String) (cs : List Char) : Option (List Char) :=
  (Text.dropFront? sign.toList (skipBlanks cs)).map skipBlanks

def isNameStart (c : Char) : Bool := c.isAlpha || c = '_'

def isNameChar (c : Char) : Bool := c.isAlphanum || c = '_'

/-- A name: an ASCII letter or underscore, then also digits. -/
def name? : Recogniser String
  | [] => none
  | c :: cs =>
    if isNameStart c then
      some (String.ofList (c :: cs.takeWhile isNameChar), cs.dropWhile isNameChar)
    else none

/-- The text before the first occurrence of a character, and what follows that. -/
def before? (stop : Char) : Recogniser (List Char)
  | [] => none
  | c :: cs =>
    if c = stop then some ([], cs)
    else (before? stop cs).map fun (text, rest) => (c :: text, rest)

/-- Recognises one thing, then as many more as follow, each behind a sign. -/
def separated {α : Type} (sign : String) (item? : Recogniser α) : Nat → Recogniser (List α)
  | 0, _ => none
  | fuel + 1, cs => do
    let (item, rest) ← item? cs
    match (sign? sign rest).bind (separated sign item? fuel) with
    | some (items, rest) => return (item :: items, rest)
    | none => return ([item], rest)

/-- Names joined by points. -/
def qualifiedName? : Recogniser String := fun cs => do
  let (name, rest) ← name? cs
  return more cs.length name rest
where
  more : Nat → String → List Char → String × List Char
    | 0, name, cs => (name, cs)
    | fuel + 1, name, cs =>
      match cs with
      | '.' :: rest =>
        match name? rest with
        | some (part, rest) => more fuel (name ++ "." ++ part) rest
        | none => (name, cs)
      | _ => (name, cs)

/-- An optional list in angle brackets, and what follows it. -/
def angled (cs : List Char) : Option (List Char) × List Char :=
  match Text.dropFront? ['<'] (skipBlanks cs) with
  | none => (none, cs)
  | some inner =>
    match before? '>' inner with
    | some (text, rest) => (some text, rest)
    | none => (none, cs)

/-- Everything that is recognised in a text, with its position: each time the first, then on from
its end. -/
def findAllFrom {α : Type} (recognise : Recogniser α) (position : Nat) :
    List Char → List (Nat × α)
  | [] => []
  | c :: cs =>
    match recognise (c :: cs) with
    | some (found, rest) =>
      if rest.length < (c :: cs).length then
        (position, found) ::
          findAllFrom recognise (position + ((c :: cs).length - rest.length)) rest
      else findAllFrom recognise (position + 1) cs
    | none => findAllFrom recognise (position + 1) cs
  termination_by cs => cs.length
  decreasing_by
    · assumption
    · exact Nat.lt_succ_self _
    · exact Nat.lt_succ_self _

def findAll {α : Type} (recognise : Recogniser α) (cs : List Char) : List (Nat × α) :=
  findAllFrom recognise 0 cs

/-- The parts of a list between commas, without blanks around them and without empty ones. -/
def listed (cs : List Char) : List (List Char) :=
  ((cs.splitOn ',').map Text.trim).filter fun part => !part.isEmpty

end TreeFacts.Program
