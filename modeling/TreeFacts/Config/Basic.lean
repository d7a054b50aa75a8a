import TreeFacts.Error
import TreeFacts.Json.Reader

namespace TreeFacts

/-- How to run a compiled rule program. -/
structure EngineConfig where
  /-- the path of the program -/
  engine : String
  /-- the directory of the library that the program loads its functors from -/
  functorsDir : Option String
  /-- how many threads it may use -/
  jobs : Option Nat
  /-- the time a run may take, in milliseconds -/
  timeout : Option Nat
  /-- where working directories are made -/
  workDirRoot : Option String
  keepWorkDir : Bool
  deriving DecidableEq, Repr

namespace EngineConfig

def ofEngine (engine : String) : EngineConfig := ⟨engine, none, none, none, none, false⟩

def standard : EngineConfig := ofEngine "analysis"

/-- One more than the greatest number that a configuration holds. -/
def bound : Nat := UInt64.size

def withTimeoutSecs (c : EngineConfig) (secs : Option Nat) : EngineConfig :=
  { c with timeout := secs.map (1000 * ·) }

def timeoutSecs (c : EngineConfig) : Option Nat := c.timeout.map (· / 1000)

def readVariable (name text : String) : Except Error Nat :=
  match Text.readNat? bound (Text.trim text.toList) with
  | some n => .ok n
  | none => .error (.config (.environment name text))

def isTruthy (text : String) : Bool :=
  ["1", "true", "yes", "on"].contains
    (String.ofList ((Text.trim text.toList).map Char.toLower))

/-- The standard configuration, changed by the environment variables that are set. -/
def ofEnvironment (lookup : String → Option String) : Except Error EngineConfig := do
  let number (name : String) : Except Error (Option Nat) :=
    match lookup name with
    | some text => (readVariable name text).map some
    | none => .ok none
  let jobs ← number "SOLFACTS_JOBS"
  let timeout ← number "SOLFACTS_TIMEOUT_SECS"
  return {
    engine := (lookup "SOLFACTS_ENGINE").getD standard.engine
    functorsDir := lookup "SOLFACTS_FUNCTORS_DIR"
    jobs := jobs
    timeout := timeout.map (1000 * ·)
    workDirRoot := none
    keepWorkDir := ((lookup "SOLFACTS_KEEP_WORKDIR").map isTruthy).getD false }

end EngineConfig

/-- How to compile a rule program. -/
structure CompilerConfig where
  /-- the compiler, as a path or as the name of a command -/
  souffle : String
  /-- the directory searched for functor libraries -/
  functorsDir : Option String
  /-- arguments added at the end of the command line -/
  extraFlags : List String
  deriving DecidableEq, Repr

namespace CompilerConfig

def standard : CompilerConfig := ⟨"souffle", none, []⟩

end CompilerConfig

end TreeFacts
