import TreeFacts.Program.Component
import TreeFacts.Text.Utf8

namespace TreeFacts.Program

/-- The offset of the brace that closes `depth` open ones, looked for byte by byte. -/
def closingFrom : Quoting → Nat → Nat → List UInt8 → Option Nat
  | _, _, _, [] => none
  | .inside, depth, offset, b :: bytes =>
    let quoting := if b = 0x5C then .escaped else if b = 0x22 then .outside else .inside
    closingFrom quoting depth (offset + 1) bytes
  | .escaped, depth, offset, _ :: bytes => closingFrom .inside depth (offset + 1) bytes
  | .outside, depth, offset, b :: bytes =>
    if b = 0x22 then closingFrom .inside depth (offset + 1) bytes
    else if b = 0x7B then closingFrom .outside (depth + 1) (offset + 1) bytes
    else if b = 0x7D then
      if depth = 0 then none
      else if depth = 1 then some offset
      else closingFrom .outside (depth - 1) (offset + 1) bytes
    else closingFrom .outside depth (offset + 1) bytes

/-- Where a component stands in a text: the byte offsets of its header, of the brace that opens its
body and of the brace that closes it. -/
structure Extent where
  start : Nat
  opening : Nat
  closing : Nat
  deriving DecidableEq, Repr

/-- One call of the scan: the text it is given, the components it cuts out of it, the text that is
left for its statements, and the calls it makes in turn. -/
structure Trace where
  text : List Char
  spans : List Extent
  around : List Char
  calls : List Trace

/-- The components behind a cursor with those nested in them, where they stand, the text around
them, and the calls that scan their bodies. -/
structure Cutting where
  components : List Component
  spans : List Extent
  around : List Char
  calls : List Trace

/-- A scan that cuts a text at byte offsets. There is no outcome where it would cut outside the text
or inside a character, and none where the steps allowed to it were too few for it to end. -/
abbrev Slicing (α : Type) := ExceptT ParseFault Option α

def Slicing.unfinished {α : Type} : Slicing α := ExceptT.mk none

mutual

/-- The statements of a text and the components in it, each behind those nested in its body. -/
def scanOffsets : Nat → List Char → Slicing ((Statements × List Component) × Trace)
  | 0, _ => .unfinished
  | steps + 1, text => do
    let cutting ← cutFrom steps text 0
    let statements ← ExceptT.mk (some (Statements.read cutting.around))
    return ((statements, cutting.components),
      ⟨text, cutting.spans, cutting.around, cutting.calls⟩)

/-- Cuts out the components from a cursor on. -/
def cutFrom : Nat → List Char → Nat → Slicing Cutting
  | 0, _, _ => .unfinished
  | steps + 1, text, cursor => do
    let rest ← Text.sliceFrom? text cursor
    match firstHeader? rest with
    | none => return ⟨[], [], rest, []⟩
    | some (before, header, inner) =>
      let start := cursor + (Text.bytes before).length
      let opening := cursor + ((Text.bytes rest).length - (Text.bytes inner).length) - 1
      let bytes ← Text.bytesFrom? text opening
      match closingFrom .outside 0 opening bytes with
      | none => throw (.unterminatedComponent header.name)
      | some closing =>
        let body ← Text.slice? text (opening + 1) closing
        let ((statements, nested), call) ← scanOffsets steps body
        let piece ← Text.slice? text cursor start
        let more ← cutFrom steps text (closing + 1)
        return ⟨nested ++ [{ header with statements }] ++ more.components,
          ⟨start, opening, closing⟩ :: more.spans, piece ++ '\n' :: more.around,
          call :: more.calls⟩

end

end TreeFacts.Program
