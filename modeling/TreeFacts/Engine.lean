import TreeFacts.Config.Basic
import TreeFacts.Fact.Files

namespace TreeFacts

/-- The directory of one run: the facts given to the engine and the files it made. -/
structure WorkDir where
  input : Directory
  output : Directory

namespace EngineConfig

/-- The functors' directory in front of the inherited search path for libraries. Where it cannot be
part of a search path, it stands alone. -/
def libraryPath (functorsDir : String) (inherited : Option String) : String :=
  match inherited with
  | some path =>
    if functorsDir.toList.contains ':' then functorsDir else functorsDir ++ ":" ++ path
  | none => functorsDir

def inDir : String := "/run/in"

def outDir : String := "/run/out"

/-- The engine's command line. -/
def invocation (c : EngineConfig) (inherited : Option String) : Invocation where
  command := c.engine
  args := ["-F", inDir, "-D", outDir] ++
    match c.jobs with
    | some jobs => ["-j", toString jobs]
    | none => []
  libraryPath :=
    match c.functorsDir with
    | some dir => some (libraryPath dir inherited)
    | none => inherited
  limit := c.timeout

/-- What an engine's outcome means: its output if it ended well. -/
def readOutcome (c : EngineConfig) (outputs : List Relation) (r : Registry) (o : Outcome) :
    Except Error FactSet :=
  match o.ending with
  | .status 0 => FactSet.read r (o.fileSystem.directory outDir) outputs
  | .timedOut =>
    .error (.engineFailure ("timed out after " ++ toString (c.timeout.getD 0) ++ "ms") "")
  | ending => .error (.engineFailure ending.render (String.ofList (Text.decodeLossy o.stderr)))

/-- Runs the engine on facts in a fresh directory and reads the given relations from what it wrote.
The directory is part of the result. -/
def run (c : EngineConfig) (m : Machine) (inherited : Option String) (input : FactSet)
    (outputs : List Relation) (r : Registry) : Except Error FactSet × WorkDir :=
  match input.write with
  | .error e => (.error e, ⟨[], []⟩)
  | .ok files =>
    let fs := (m.fileSystem.addDirectory inDir files).addDirectory outDir []
    match m.start fs (c.invocation inherited) with
    | none => (.error .io, ⟨files, []⟩)
    | some o =>
      (c.readOutcome outputs r o, ⟨o.fileSystem.directory inDir, o.fileSystem.directory outDir⟩)

end EngineConfig

end TreeFacts
