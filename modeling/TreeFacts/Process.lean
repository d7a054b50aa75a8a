import TreeFacts.Entries

namespace TreeFacts

/-- The contents of files under their names. -/
abbrev Directory := Entries ByteArray

/-- Files under their paths, and the directories that files can be made in. -/
structure FileSystem where
  files : Entries ByteArray
  directories : List String

namespace FileSystem

/-- The path of a name in a directory. -/
def path (dir name : String) : String := dir ++ "/" ++ name

/-- Adds a directory with files in it. -/
def addDirectory (fs : FileSystem) (dir : String) (files : Directory) : FileSystem :=
  ⟨files.foldl (fun all (name, bytes) => Entries.insert (path dir name) bytes all) fs.files,
    dir :: fs.directories⟩

/-- The files that stand directly in a directory. -/
def directory (fs : FileSystem) (dir : String) : Directory :=
  fs.files.filterMap fun (file, bytes) =>
    let front := (path dir "").toList
    let name := file.toList.drop front.length
    if front.isPrefixOf file.toList ∧ ¬name.contains '/' then some (String.ofList name, bytes)
    else none

end FileSystem

/-- How a command ends. -/
inductive Ending where
  | status (code : Nat)
  | signal (number : Nat)
  /-- stopped because its time was up -/
  | timedOut
  deriving DecidableEq, Repr

namespace Ending

def signalName : Nat → String
  | 1 => "SIGHUP"
  | 2 => "SIGINT"
  | 3 => "SIGQUIT"
  | 6 => "SIGABRT"
  | 9 => "SIGKILL"
  | 10 => "SIGUSR1"
  | 12 => "SIGUSR2"
  | 13 => "SIGPIPE"
  | 14 => "SIGALRM"
  | 15 => "SIGTERM"
  | _ => ""

def render : Ending → String
  | status code => "exit status: " ++ toString code
  | signal number =>
    "signal: " ++ toString number ++
      if signalName number = "" then "" else " (" ++ signalName number ++ ")"
  | timedOut => "timed out"

end Ending

/-- A command with its arguments. -/
structure Invocation where
  command : String
  args : List String
  /-- the search path for libraries, if it is set -/
  libraryPath : Option String
  /-- how long the command may run, in milliseconds -/
  limit : Option Nat
  deriving DecidableEq, Repr

/-- What a command leaves behind. -/
structure Outcome where
  ending : Ending
  stderr : List UInt8
  fileSystem : FileSystem

/-- Where commands run: the files there are, and how a command starts if it can. -/
structure Machine where
  fileSystem : FileSystem
  /-- whether a bare name is that of a command -/
  hasCommand : String → Bool
  start : FileSystem → Invocation → Option Outcome

end TreeFacts
