import TreeFacts.Shell.Builtin
import TreeFacts.Shell.Reader

namespace TreeFacts.Shell

/-- Where a stream goes. -/
inductive Sink where
  | dropped
  | stderr
  | file (path : String)
  deriving DecidableEq, Repr

structure State where
  fs : FileSystem
  vars : List (String × String)
  /-- the name the script was started by -/
  self : String
  args : List String
  /-- the status of the last command -/
  status : Nat
  /-- whether a command that fails ends the script -/
  strict : Bool
  stderr : List UInt8
  /-- the time that has passed, in milliseconds -/
  elapsed : Nat
  limit : Option Nat
  ended : Option Ending

namespace State

/-- The identifier of the process that runs the script. -/
def processId : String := "1"

def value (s : State) (name : String) : String :=
  match name with
  | "#" => toString s.args.length
  | "?" => toString s.status
  | "$" => processId
  | "*" | "@" => " ".intercalate s.args
  | "0" => s.self
  | _ =>
    match name.toNat? with
    | some n => (s.args[n - 1]?).getD ""
    | none => (s.vars.lookup name).getD ""

def write (s : State) (sink : Sink) (bytes : List UInt8) : State :=
  match sink with
  | .dropped => s
  | .stderr => { s with stderr := s.stderr ++ bytes }
  | .file path =>
    let old := (s.fs.files.lookup path).getD ByteArray.empty
    { s with fs := { s.fs with
        files := Entries.insert path (old ++ ⟨bytes.toArray⟩) s.fs.files } }

def setFile (s : State) (path : String) (bytes : ByteArray) : State :=
  { s with fs := { s.fs with files := Entries.insert path bytes s.fs.files } }

def removeFile (s : State) (path : String) : State :=
  { s with fs := { s.fs with files := s.fs.files.filter (·.1 ≠ path) } }

def withStatus (s : State) (status : Nat) : State := { s with status }

/-- Ends a strict script whose last command failed. -/
def endOnFailure (s : State) : State :=
  if s.strict ∧ s.status ≠ 0 ∧ s.ended.isNone then { s with ended := some (.status s.status) }
  else s

/-- Lets time pass, which may run out. -/
def wait (s : State) (ms : Nat) : State :=
  let s := { s with elapsed := s.elapsed + ms }
  match s.limit with
  | some limit => if limit ≤ s.elapsed then { s with ended := some .timedOut } else s
  | none => s

end State

/-- A character of a field; none is a star that stands for any text. -/
abbrev FieldChar := Option Char

/-- The fields a word stands for, the last of which is given apart while it may still grow. -/
def expandParts (s : State) : Option (List FieldChar) → Word → List (List FieldChar)
  | current, [] => current.toList
  | current, .text quoted t :: parts =>
    let t := t.map fun c => if quoted || c ≠ '*' then some c else none
    expandParts s (some (current.getD [] ++ t)) parts
  | current, .param true "@" [] :: parts =>
    match s.args with
    | [] => expandParts s current parts
    | first :: rest =>
      let fields := (current.getD [] ++ first.toList.map some) ::
        rest.map fun arg => arg.toList.map some
      fields.dropLast ++ expandParts s fields.getLast? parts
  | current, .param quoted name dropped :: parts =>
    let value := (s.value name).toList
    let value := (Text.dropBack? dropped value).getD value
    if quoted then expandParts s (some (current.getD [] ++ value.map some)) parts
    else
      let fields := ((value.splitOn ' ').filter fun f => !f.isEmpty).map fun f => f.map some
      match fields with
      | [] => expandParts s current parts
      | first :: rest =>
        let fields := (current.getD [] ++ first) :: rest
        fields.dropLast ++ expandParts s fields.getLast? parts

/-- Whether a path fits a field in which stars stand for text without slashes. -/
def fits : List FieldChar → List Char → Bool
  | [], path => path.isEmpty
  | some c :: pattern, c' :: path => c = c' && fits pattern path
  | some _ :: _, [] => false
  | none :: pattern, path => fitsAfter pattern path
where
  /-- Whether some rest of a path, no slash before it, fits a field. -/
  fitsAfter (pattern : List FieldChar) : List Char → Bool
    | [] => fits pattern []
    | c :: path => fits pattern (c :: path) || (c ≠ '/' && fitsAfter pattern path)

/-- The text of a field in which stars are taken as they are. -/
def plainField (field : List FieldChar) : String := String.ofList (field.map (·.getD '*'))

/-- The files that a field with stars fits, in order; the field itself if there are none. -/
def expandField (s : State) (field : List FieldChar) : List String :=
  let fitting := if field.contains none then
      (s.fs.files.map (·.1)).filter fun path => fits field path.toList
    else []
  if fitting.isEmpty then [plainField field] else fitting

def expand (s : State) (w : Word) : List String := (expandParts s none w).flatMap (expandField s)

/-- A word as one field, in which stars are taken as they are. -/
def expandOne (s : State) (w : Word) : String :=
  " ".intercalate ((expandParts s none w).map plainField)

/-- Where the two streams of a command go. -/
structure Streams where
  out : Sink
  err : Sink
  deriving DecidableEq, Repr

/-- Follows redirections, making the files they name; none if one of them cannot be made. -/
def redirect : State → Streams → List Redirect → State × Option Streams
  | s, streams, [] => (s, some streams)
  | s, streams, .stream stream target :: rest =>
    let sink := if target = 1 then streams.out else streams.err
    redirect s (if stream = 1 then { streams with out := sink } else { streams with err := sink })
      rest
  | s, streams, .file stream append word :: rest =>
    let path := expandOne s word
    let set (sink : Sink) : Streams :=
      if stream = 1 then { streams with out := sink } else { streams with err := sink }
    if path = "/dev/null" then redirect s (set .dropped) rest
    else if s.fs.directories.contains (dirname path) then
      let keep := append && (s.fs.files.lookup path).isSome
      redirect (if keep then s else s.setFile path ByteArray.empty) (set (.file path)) rest
    else
      (s.write streams.err (encode ("cannot create " ++ path ++ "\n").toList), none)

/-- The directory that a path names, perhaps with slashes at the end. -/
def directory? (fs : FileSystem) (path : String) : Option String :=
  fs.directories.find? (· == dirname (FileSystem.path path "x"))

/-- Copies a file to a path or into a directory. -/
def copy (s : State) (streams : Streams) (source target : String) : State :=
  let target := match directory? s.fs target with
    | some dir => FileSystem.path dir (basename source [])
    | none => target
  match s.fs.files.lookup source with
  | none =>
    (s.write streams.err (encode ("cp: cannot stat '" ++ source ++
      "': No such file or directory\n").toList)).withStatus 1
  | some bytes =>
    if s.fs.directories.contains (dirname target) then (s.setFile target bytes).withStatus 0
    else
      (s.write streams.err (encode ("cp: cannot create regular file '" ++ target ++
        "': No such file or directory\n").toList)).withStatus 1

/-- Copies all files but the last to the last, which is a directory if there are several. -/
def copyAll (s : State) (streams : Streams) (paths : List String) : State :=
  match paths.filter fun path => !path.startsWith "-" with
  | [source, target] => copy s streams source target
  | paths =>
    let target := (paths.getLast?).getD ""
    if (directory? s.fs target).isSome then
      paths.dropLast.foldl (fun before source =>
        let s := copy before streams source target
        s.withStatus (max before.status s.status)) (s.withStatus 0)
    else
      (s.write streams.err (encode ("cp: target '" ++ target ++
        "' is not a directory\n").toList)).withStatus 1

def signalNumber (name : String) : Nat :=
  (((List.range 32).find? fun n => Ending.signalName n = "SIG" ++ name ∨
    Ending.signalName n = name ∨ toString n = name).getD 15)

/-- Sends the named signal, which ends the script if it is meant for its own process. -/
def kill (s : State) (signal pid : String) : State :=
  if pid = State.processId then { s with ended := some (.signal (signalNumber signal)) }
  else s.withStatus 1

/-- Runs a command that is given by its words. -/
def runWords (s : State) (streams : Streams) : List String → State
  | [] => s.withStatus 0
  | "exec" :: rest =>
    let s := runWords s streams rest
    if rest.isEmpty ∨ s.ended.isSome then s else { s with ended := some (.status s.status) }
  | ":" :: _ => s.withStatus 0
  | "true" :: _ => s.withStatus 0
  | "false" :: _ => s.withStatus 1
  | "exit" :: args =>
    let status := match args with
      | code :: _ => (code.toNat?.getD 2) % 256
      | [] => s.status
    { s with ended := some (.status status) }
  | "echo" :: args => (s.write streams.out (echo args)).withStatus 0
  | "printf" :: format :: args =>
    (s.write streams.out (formatAll (args.length + 1) format.toList args)).withStatus 0
  | "cp" :: paths => copyAll s streams paths
  | ["mv", source, target] =>
    let s := copy s streams source target
    if s.status = 0 then s.removeFile source else s
  | "rm" :: paths => (paths.foldl State.removeFile s).withStatus 0
  | "touch" :: paths =>
    (paths.foldl (fun s path =>
      if (s.fs.files.lookup path).isSome then s else s.setFile path ByteArray.empty) s).withStatus 0
  | "cat" :: paths =>
    paths.foldl (fun s path =>
      match s.fs.files.lookup path with
      | some bytes => s.write streams.out bytes.toList
      | none =>
        (s.write streams.err (encode ("cat: " ++ path ++
          ": No such file or directory\n").toList)).withStatus 1) (s.withStatus 0)
  | ["basename", path] =>
    (s.write streams.out (encode ((basename path []).toList ++ ['\n']))).withStatus 0
  | ["basename", path, dropped] =>
    (s.write streams.out (encode ((basename path dropped.toList).toList ++ ['\n']))).withStatus 0
  | ["dirname", path] =>
    (s.write streams.out (encode ((dirname path).toList ++ ['\n']))).withStatus 0
  | "shift" :: count =>
    let n := ((count.head?).bind String.toNat?).getD 1
    if n ≤ s.args.length then { s with args := s.args.drop n, status := 0 }
    else { s with ended := some (.status 2) }
  | ["sleep", time] => (s.wait (1000 * (time.toNat?.getD 0))).withStatus 0
  | ["kill", pid] => kill s "15" pid
  | ["kill", "-s", signal, pid] => kill s signal pid
  | ["kill", signal, pid] => kill s (String.ofList (signal.toList.drop 1)) pid
  | "set" :: flags =>
    let strict := flags.any fun flag => flag.startsWith "-" && flag.contains 'e'
    { s with strict := s.strict || strict, status := 0 }
  | "test" :: args => s.withStatus (if test s.fs args then 0 else 1)
  | "[" :: args =>
    s.withStatus
      (if args.getLast? ≠ some "]" then 2 else if test s.fs args.dropLast then 0 else 1)
  | "mkdir" :: args =>
    let made := args.filter fun a => a ≠ "-p"
    { s with fs := { s.fs with directories := made ++ s.fs.directories }, status := 0 }
  | name :: _ => (s.write streams.err (encode (name ++ ": not found\n").toList)).withStatus 127

def assign (s : State) (a : String × Word) : State :=
  { s with vars := (a.1, expandOne s a.2) :: s.vars }

/-- Goes on with a script unless it has ended. -/
def unlessEnded (s : State) (next : State → State) : State := if s.ended.isSome then s else next s

/-- Runs a condition, whose failure ends no script. -/
def lenient (s : State) (condition : State → State) : State :=
  { condition { s with strict := false } with strict := s.strict }

mutual

def runCommand (streams : Streams) : Command → State → State
  | .simple assignments words redirects, s => unlessEnded s fun s =>
    let s := assignments.foldl assign s
    let fields := words.flatMap (expand s)
    match redirect s streams redirects with
    | (s, some streams) => (runWords s streams fields).endOnFailure
    | (s, none) => (s.withStatus 2).endOnFailure
  | .branch condition accepted rejected, s => unlessEnded s fun s =>
    let s := lenient s (runCommands streams condition)
    if s.status = 0 then runCommands streams accepted (s.withStatus 0)
    else runCommands streams rejected (s.withStatus 0)
  | .each name words body, s => unlessEnded s fun s =>
    (words.flatMap (expand s)).foldl (fun s field => unlessEnded s fun s =>
      runCommands streams body { s with vars := (name, field) :: s.vars }) (s.withStatus 0)
  | .both first second, s => unlessEnded s fun s =>
    let s := lenient s (runCommand streams first)
    if s.status = 0 then runCommand streams second s else s
  | .either first second, s => unlessEnded s fun s =>
    let s := lenient s (runCommand streams first)
    if s.status = 0 then s else runCommand streams second s
  | .redirected body redirects, s => unlessEnded s fun s =>
    match redirect s streams redirects with
    | (s, some streams) => runCommands streams body s
    | (s, none) => s.withStatus 2

def runCommands (streams : Streams) : List Command → State → State
  | [], s => s
  | c :: cs, s => runCommands streams cs (runCommand streams c s)

end

/-- Runs the text of a script. What it writes to its output goes nowhere. -/
def runScript (fs : FileSystem) (script : String) (i : Invocation) : Outcome :=
  let vars := match i.libraryPath with
    | some path => [("LD_LIBRARY_PATH", path)]
    | none => []
  let s : State := ⟨fs, vars, i.command, i.args, 0, false, [], 0, i.limit, none⟩
  let s := s.wait 0
  let s := match parse script with
    | some commands => unlessEnded s (runCommands ⟨.dropped, .stderr⟩ commands)
    | none => s.write .stderr (encode "Syntax error\n".toList) |>.withStatus 2
  ⟨s.ended.getD (.status s.status), s.stderr, s.fs⟩

/-- Whether a text is a script: its first line names a shell to run it. -/
def isScript (text : String) : Bool :=
  match Text.dropFront? ['#', '!'] (text.toList.takeWhile (· ≠ '\n')) with
  | none => false
  | some line =>
    match (line.splitOn ' ').filter fun word => !word.isEmpty with
    | shell :: args =>
      let name := basename (String.ofList shell) []
      let name := if name = "env" then String.ofList (args.headD []) else name
      ["sh", "bash", "dash"].contains name
    | [] => false

/-- The file that a command names: a path itself, a bare name in one of the given directories. -/
def commandFile? (searched : List String) (fs : FileSystem) (command : String) : Option ByteArray :=
  if command.toList.contains '/' then fs.files.lookup command
  else searched.findSome? fun dir => fs.files.lookup (FileSystem.path dir command)

/-- A machine on which scripts run, bare names being looked for in the given directories. -/
def machine (fs : FileSystem) (searched : List String) : Machine where
  fileSystem := fs
  hasCommand name := (commandFile? searched fs name).isSome
  start fs i := do
    let script ← String.fromUTF8? (← commandFile? searched fs i.command)
    guard (isScript script)
    return runScript fs script i

end TreeFacts.Shell
