import TreeFacts.Text.Numeral

namespace TreeFacts.Template

/-- A reference to a column by position, with the segments of a path from its value. -/
structure Placeholder where
  digits : List Char
  path : List (List Char)
  deriving DecidableEq, Repr

inductive Piece where
  | char (c : Char)
  | placeholder (p : Placeholder)
  deriving DecidableEq, Repr

def isSegmentChar (c : Char) : Bool := c.isAlphanum || c = '_'

/-- As many segments as follow, each behind a point, and what comes after. -/
def segments : Nat → List Char → List (List Char) × List Char
  | fuel + 1, '.' :: rest =>
    let segment := rest.takeWhile isSegmentChar
    if segment.isEmpty then ([], '.' :: rest)
    else
      let (more, after) := segments fuel (rest.dropWhile isSegmentChar)
      (segment :: more, after)
  | _, cs => ([], cs)

/-- A placeholder behind its opening brace, and what comes after. -/
def placeholder? (cs : List Char) : Option (Placeholder × List Char) :=
  let digits := cs.takeWhile Text.isDecimalDigit
  match cs.dropWhile Text.isDecimalDigit with
  | '\x7d' :: rest =>
    if digits.isEmpty then none
    else
      let (path, after) := segments rest.length rest
      some (⟨digits, path⟩, after)
  | _ => none

/-- Cuts a template into placeholders, each as long as it can be, and the characters between. -/
def piecesIn : Nat → List Char → List Piece
  | fuel + 1, c :: cs =>
    match if c = '\x7b' then placeholder? cs else none with
    | some (p, rest) => .placeholder p :: piecesIn fuel rest
    | none => .char c :: piecesIn fuel cs
  | _, _ => []

def pieces (template : String) : List Piece :=
  piecesIn template.toList.length template.toList

end TreeFacts.Template
