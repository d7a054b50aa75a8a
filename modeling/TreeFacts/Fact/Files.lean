import TreeFacts.Fact.Reader
import TreeFacts.Fact.Set
import TreeFacts.Fact.Table
import TreeFacts.Process
import TreeFacts.Text.Utf8

namespace TreeFacts

namespace FactSet

/-- The name of the file that holds a relation. -/
def fileName (relation : String) : String := relation ++ ".csv"

/-- One file per relation, also for those without tuples. -/
def files (fs : FactSet) : Directory :=
  Entries.ofList (fs.tables.map fun (name, _, tuples) =>
    (fileName name, (Table.render tuples).toUTF8))

/-- Whether a file can have the given name. -/
def isFileName (name : String) : Bool :=
  !name.toList.contains '/' && !name.toList.contains '\x00' && name.utf8ByteSize ≤ 255

/-- Writes one file per relation. -/
def write (fs : FactSet) : Except Error Directory :=
  if fs.names.all fun name => isFileName (fileName name) then .ok fs.files else .error .io

/-- A row of a file as a tuple of the relation. -/
def parseRow (registry : Registry) (r : Relation) (index : Nat) (row : List String) :
    Except Error Tuple :=
  if row.length = r.arity then
    (row.zip r.columns).mapM fun (text, _, type) => FactValue.parse registry type text
  else .error (.parse (.rowWidth r.name (index + 1) r.arity row.length))

/-- Adds the rows of a file to a relation. -/
def addRows (registry : Registry) (r : Relation) :
    FactSet → Nat → List (List String) → Except Error FactSet
  | fs, _, [] => .ok fs
  | fs, index, row :: rows => do
    let fs ← fs.add r.name (← parseRow registry r index row)
    addRows registry r fs (index + 1) rows

/-- Adds what the file of a relation holds. -/
def readRelation (registry : Registry) (dir : Directory) (fs : FactSet) (r : Relation) :
    Except Error FactSet :=
  match dir.lookup (fileName r.name) with
  | none => .error (.missingOutput r.name)
  | some bytes =>
    match Text.decode? bytes with
    | none => .error .io
    | some text =>
      match Table.parse text with
      | .error fault => .error (.parse fault)
      | .ok rows => addRows registry r (fs.declare r) 0 rows

/-- Reads the files of the given relations. -/
def read (registry : Registry) (dir : Directory) (relations : List Relation) :
    Except Error FactSet :=
  relations.foldlM (readRelation registry dir) empty

end FactSet

end TreeFacts
