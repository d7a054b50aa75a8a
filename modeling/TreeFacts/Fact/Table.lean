import TreeFacts.Error

namespace TreeFacts.Table

/-- Where a scan of a table stands within a field. -/
inductive Place where
  /-- before the first character of a field -/
  | start
  /-- in a field without quotes -/
  | bare
  | quoted
  /-- after a quote inside quotes, which ends the field or is the first half of a doubled one -/
  | closing
  deriving DecidableEq

/-- The fields of a row, the last of which is given by its characters, both in reverse. -/
def endField (row : List String) (field : List Char) : List String :=
  String.ofList field.reverse :: row

def nestingAfter (depth : Nat) (c : Char) : Nat :=
  if c = '[' ∨ c = '(' then depth + 1
  else if c = ']' ∨ c = ')' then depth - 1
  else depth

/-- Splits text into rows of fields. A field in quotes may hold anything, with its quotes doubled.
In a bare field, commas and line breaks inside brackets belong to the field. Empty lines are no
rows. `row` and `field` hold what was read of the current row and field, in reverse. -/
def splitRows : Place → Nat → List String → List Char → List Char →
    Except ParseFault (List (List String))
  | place, _, row, field, [] =>
    match place with
    | .quoted => .error .unterminatedQuote
    | .closing | .bare => .ok [(endField row field).reverse]
    | .start => .ok (if row.isEmpty then [] else [(endField row field).reverse])
  | .quoted, depth, row, field, c :: cs =>
    if c = '"' then splitRows .closing depth row field cs
    else splitRows .quoted depth row (c :: field) cs
  | .closing, depth, row, field, c :: cs =>
    if c = '"' then splitRows .quoted depth row ('"' :: field) cs
    else if c = ',' then splitRows .start depth (endField row field) [] cs
    else if c = '\n' then
      (splitRows .start depth [] [] cs).map ((endField row field).reverse :: ·)
    else if c = '\r' then splitRows .closing depth row field cs
    else .error (.afterQuote c)
  | .start, depth, row, field, c :: cs =>
    if c = '"' then splitRows .quoted depth row field cs
    else if c = ',' ∧ depth = 0 then splitRows .start depth (endField row field) [] cs
    else if c = '\n' ∧ depth = 0 then
      if row.isEmpty then splitRows .start depth row field cs
      else (splitRows .start depth [] [] cs).map ((endField row field).reverse :: ·)
    else if c = '\r' ∧ depth = 0 then splitRows .start depth row field cs
    else splitRows .bare (nestingAfter depth c) row (c :: field) cs
  | .bare, depth, row, field, c :: cs =>
    if c = ',' ∧ depth = 0 then splitRows .start depth (endField row field) [] cs
    else if c = '\n' ∧ depth = 0 then
      (splitRows .start depth [] [] cs).map ((endField row field).reverse :: ·)
    else if c = '\r' ∧ depth = 0 then splitRows .bare depth row field cs
    else splitRows .bare (nestingAfter depth c) row (c :: field) cs

/-- The rows of a table's text. -/
def parse (text : String) : Except ParseFault (List (List String)) :=
  splitRows .start 0 [] [] text.toList

def quoteField (s : String) : String :=
  "\"" ++ String.ofList (s.toList.flatMap fun c => if c = '"' then ['"', '"'] else [c]) ++ "\""

/-- A value as one field: a number bare, everything else in quotes. -/
def renderField : FactValue → String
  | .number n => Text.showInt64 n
  | .symbol s => quoteField s
  | v => quoteField v.render

def renderRow (t : Tuple) : String := ",".intercalate (t.map renderField) ++ "\n"

def render (tuples : List Tuple) : String := String.join (tuples.map renderRow)

end TreeFacts.Table
