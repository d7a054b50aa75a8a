import TreeFacts.Config.Basic

namespace TreeFacts

/-- How the value of one setting changes a configuration, if it fits. -/
abbrev Setting (α : Type) := α → Json → Option α

namespace Setting

variable {α : Type}

def text? : Json → Option String
  | .str s => some s
  | _ => none

def bool? : Json → Option Bool
  | .bool b => some b
  | _ => none

def nat? : Json → Option Nat
  | .int n => if 0 ≤ n ∧ n < EngineConfig.bound then some n.toNat else none
  | _ => none

def texts? : Json → Option (List String)
  | .arr items => items.mapM text?
  | _ => none

/-- A value that may be null. -/
def optional? {β : Type} (read? : Json → Option β) : Json → Option (Option β)
  | .null => some none
  | j => (read? j).map some

/-- Changes settings given in order. There may be fewer than there are settings, not more. -/
def applyList : List (String × Setting α) → α → List Json → Option α
  | _, config, [] => some config
  | [], _, _ :: _ => none
  | (_, set) :: settings, config, j :: js => (set config j).bind (applyList settings · js)

/-- Changes settings given by name. Unknown names are passed over; no name may be repeated. -/
def applyMembers (settings : List (String × Setting α)) :
    List String → α → List (String × Json) → Option α
  | _, config, [] => some config
  | seen, config, (name, j) :: members =>
    match settings.lookup name with
    | none => applyMembers settings seen config members
    | some set =>
      if seen.contains name then none
      else (set config j).bind (applyMembers settings (name :: seen) · members)

/-- Reads a configuration: settings by name or in order, the others as they are. -/
def parse? (settings : List (String × Setting α)) (standard : α) (text : String) : Option α :=
  match Json.parseFor (settings.map (·.1)) text with
  | some (.obj members) => applyMembers settings [] standard members
  | some (.arr items) => applyList settings standard items
  | _ => none

end Setting

namespace EngineConfig

def settings : List (String × Setting EngineConfig) :=
  [("engine", fun c j => do return { c with engine := ← Setting.text? j }),
   ("functors_dir", fun c j => do
      return { c with functorsDir := ← Setting.optional? Setting.text? j }),
   ("jobs", fun c j => do return { c with jobs := ← Setting.optional? Setting.nat? j }),
   ("timeout_secs", fun c j => do
      return c.withTimeoutSecs (← Setting.optional? Setting.nat? j)),
   ("work_dir_root", fun c j => do
      return { c with workDirRoot := ← Setting.optional? Setting.text? j }),
   ("keep_work_dir", fun c j => do return { c with keepWorkDir := ← Setting.bool? j })]

def parse? (text : String) : Option EngineConfig := Setting.parse? settings standard text

def toJson (c : EngineConfig) : Json :=
  let number (n : Option Nat) : Json := .ofOption (n.map fun n => .int n)
  let text (s : Option String) : Json := .ofOption (s.map .str)
  .obj [("engine", .str c.engine), ("functors_dir", text c.functorsDir),
    ("jobs", number c.jobs), ("timeout_secs", number c.timeoutSecs),
    ("work_dir_root", text c.workDirRoot), ("keep_work_dir", .bool c.keepWorkDir)]

end EngineConfig

namespace CompilerConfig

def settings : List (String × Setting CompilerConfig) :=
  [("souffle", fun c j => do return { c with souffle := ← Setting.text? j }),
   ("functors_dir", fun c j => do
      return { c with functorsDir := ← Setting.optional? Setting.text? j }),
   ("extra_flags", fun c j => do return { c with extraFlags := ← Setting.texts? j })]

def parse? (text : String) : Option CompilerConfig := Setting.parse? settings standard text

def toJson (c : CompilerConfig) : Json :=
  .obj [("souffle", .str c.souffle), ("functors_dir", .ofOption (c.functorsDir.map .str)),
    ("extra_flags", .strings c.extraFlags)]

end CompilerConfig

end TreeFacts
