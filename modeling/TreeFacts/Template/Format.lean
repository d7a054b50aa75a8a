import TreeFacts.Error
import TreeFacts.Lifting.Value
import TreeFacts.Template.Syntax
import TreeFacts.Text.Utf8
import TreeFacts.Tree.Index
import TreeFacts.Tree.Span

namespace TreeFacts.Template

/-- What paths may reach beyond the values themselves: source files by index, and the nodes that
numbers refer to. -/
structure Context where
  sources : List (Nat × List UInt8)
  nodes : Option NodeIndex

namespace Context

/-- Supplies a source file in place of the one with its index. -/
def withSource (c : Context) (file : Nat) (contents : List UInt8) : Context :=
  { c with sources := (file, contents) :: c.sources }

/-- The text that a node was read from. -/
def sourceText? (c : Context) (n : Node) : Option String := do
  let span ← (Span.parse n.src).toOption
  let contents ← c.sources.lookup (← span.file)
  return String.ofList (Text.decodeLossy (← span.slice? contents))

def nodeStep? (c : Context) (n : Node) (segment : String) : Option Lifted :=
  if segment = "id" then some (.number n.id)
  else if segment = "nodeType" then some (.text n.kind)
  else if segment = "src" then some (.text n.src)
  else if segment = "source" then (c.sourceText? n).map .text
  else (n.field? segment).map .ofTree

/-- The value one segment further along a path. -/
def step? (c : Context) (v : Lifted) (segment : String) : Option Lifted :=
  match v with
  | .node n => c.nodeStep? n segment
  | .number id => do c.nodeStep? (← (← c.nodes).get? id) segment
  | .variant tag payload => if segment = "tag" then some (.text tag) else payload.lookup segment
  | .record fields => fields.lookup segment
  | .list items =>
    if segment = "len" then some (.number (Int64.ofNat items.length))
    else (Text.readNat? UInt64.size segment.toList).bind fun i => items[i]?
  | .text _ | .bool _ | .absent => none

def follow? (c : Context) : Lifted → List (List Char) → Option Lifted
  | v, [] => some v
  | v, segment :: path => (c.step? v (String.ofList segment)).bind (c.follow? · path)

end Context

/-- The greatest index, which also stands for digits that are no index. -/
def maxIndex : Nat := UInt64.size - 1

namespace Placeholder

def pathText (p : Placeholder) : String := String.ofList (p.path.flatMap ('.' :: ·))

/-- The value a placeholder stands for. -/
def resolve (c : Context) (f : LiftedFact) (p : Placeholder) : Except Error Lifted :=
  match Text.readNat? UInt64.size p.digits with
  | none => .error (.placeholder maxIndex p.pathText)
  | some index =>
    match (f.values[index]?).bind (c.follow? · p.path) with
    | some v => .ok v
    | none => .error (.placeholder index p.pathText)

end Placeholder

def Piece.format (c : Context) (f : LiftedFact) : Piece → Except Error String
  | char ch => .ok (String.singleton ch)
  | placeholder p => (p.resolve c f).map Lifted.render

/-- The template with every placeholder replaced by what it stands for. -/
def format (c : Context) (f : LiftedFact) (template : String) : Except Error String :=
  ((pieces template).mapM (Piece.format c f)).map String.join

end TreeFacts.Template
