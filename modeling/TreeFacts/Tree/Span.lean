import TreeFacts.Tree.Basic

namespace TreeFacts

/-- A byte range of one source file, which is absent where the compiler writes a negative index. -/
structure Span where
  start : Nat
  length : Nat
  file : Option Nat
  deriving DecidableEq, Repr

namespace Span

/-- One more than the greatest offset, length or file index. -/
def bound : Nat := UInt64.size

/-- Reads a span written as start, length and file index with colons between. -/
def parse (text : String) : Except TreeError Span :=
  let read? : Option Span :=
    match text.toList.splitOn ':' with
    | [start, length, file] => do
      let start ← Text.readNat? bound start
      let length ← Text.readNat? bound length
      let file ← Text.readInt64? file
      return ⟨start, length, if file < 0 then none else some file.toInt.toNat⟩
    | _ => none
  match read? with
  | some span => .ok span
  | none => .error (.invalidSpan text)

def render (s : Span) : String :=
  toString s.start ++ ":" ++ toString s.length ++ ":" ++
    match s.file with
    | some file => toString file
    | none => "-1"

/-- The bytes covered, if all of them lie within the source. -/
def slice? (s : Span) (source : List UInt8) : Option (List UInt8) :=
  if s.start + s.length ≤ source.length then some ((source.drop s.start).take s.length) else none

end Span

end TreeFacts
