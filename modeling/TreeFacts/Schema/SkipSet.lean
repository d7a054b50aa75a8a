import TreeFacts.Entries
import TreeFacts.Json.Reader

namespace TreeFacts

/-- The fields that get no relation: some on every kind, some on one. -/
structure SkipSet where
  everywhere : List String
  pairs : List (String × String)
  deriving DecidableEq, Repr

namespace SkipSet

def empty : SkipSet := ⟨[], []⟩

/-- Leaves out raw text, documentation, name locations, generic child lists, and source spans,
which have a relation of their own. -/
def standard : SkipSet := ⟨["raw", "documentation", "nameLocation", "children", "src"], []⟩

def skip (s : SkipSet) (field : String) : SkipSet := { s with everywhere := field :: s.everywhere }

def skipOn (s : SkipSet) (kind field : String) : SkipSet :=
  { s with pairs := (kind, field) :: s.pairs }

def contains (s : SkipSet) (kind field : String) : Bool :=
  s.everywhere.contains field || s.pairs.contains (kind, field)

/-- The field names in order, without repetitions. -/
def sortedEverywhere (s : SkipSet) : List String := Entries.keySet s.everywhere

/-- The pairs in order, without repetitions. -/
def sortedPairs (s : SkipSet) : List (String × String) :=
  (Entries.keySet (s.pairs.map (·.1))).flatMap fun kind =>
    (Entries.keySet ((s.pairs.filter (·.1 == kind)).map (·.2))).map (kind, ·)

def texts? : Json → Option (List String)
  | .arr items => items.mapM fun item => match item with
    | .str s => some s
    | _ => none
  | _ => none

def pairs? : Json → Option (List (String × String))
  | .arr items => items.mapM fun item => match item with
    | .arr [.str kind, .str field] => some (kind, field)
    | _ => none
  | _ => none

/-- A skip set from its two parts, given once each under their names or in order. -/
def ofJson? : Json → Option SkipSet
  | .arr [everywhere, pairs] => do return ⟨← texts? everywhere, ← pairs? pairs⟩
  | .obj members => do
    let given (key : String) : List Json := (members.filter (·.1 == key)).map (·.2)
    let [everywhere] := given "global" | none
    let [pairs] := given "pairs" | none
    return ⟨← texts? everywhere, ← pairs? pairs⟩
  | _ => none

def parse? (text : String) : Option SkipSet :=
  (Json.parseFor ["global", "pairs"] text).bind ofJson?

end SkipSet

end TreeFacts
