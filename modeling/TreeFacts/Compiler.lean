import TreeFacts.Config.Basic
import TreeFacts.Error
import TreeFacts.Process
import TreeFacts.Text.Utf8

namespace TreeFacts.CompilerConfig

/-- How many steps a path takes; a leading slash is one, and points count only at the front. -/
def pathSteps (path : String) : Nat :=
  match path.toList.splitOn '/' with
  | [] => 0
  | first :: rest =>
    (if first.isEmpty && path = "" then 0 else 1) +
      (rest.filter fun step => !step.isEmpty && step ≠ ['.']).length

/-- Whether the compiler is there: a path by its file, a bare name among the commands. -/
def isAvailable (c : CompilerConfig) (m : Machine) : Bool :=
  if pathSteps c.souffle > 1 then
    (m.fileSystem.files.lookup c.souffle).isSome || m.fileSystem.directories.contains c.souffle
  else m.hasCommand c.souffle

/-- The directory that the program text is written to. -/
def sourceDir : String := "/source"

def sourceName : String := "analysis.dl"

/-- The compiler's command line. -/
def invocation (c : CompilerConfig) (output : String) (inherited : Option String) : Invocation where
  command := c.souffle
  args := [FileSystem.path sourceDir sourceName, "-o", output] ++
    (match c.functorsDir with
      | some dir => ["-L", dir]
      | none => []) ++ c.extraFlags
  libraryPath := inherited
  limit := none

/-- Compiles a program into an executable at the given path; gives the path and the files after
it. -/
def compile (c : CompilerConfig) (m : Machine) (inherited : Option String)
    (program output : String) : Except Error (String × FileSystem) :=
  if c.isAvailable m then
    let fs := m.fileSystem.addDirectory sourceDir [(sourceName, program.toUTF8)]
    match m.start fs (c.invocation output inherited) with
    | none => .error .io
    | some o =>
      if o.ending = .status 0 then .ok (output, o.fileSystem)
      else .error (.compile (String.ofList (Text.decodeLossy o.stderr)))
  else .error (.compilerNotFound c.souffle)

end TreeFacts.CompilerConfig
