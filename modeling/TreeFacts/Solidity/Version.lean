import TreeFacts.Error
import TreeFacts.Text.Basic

namespace TreeFacts.Solidity

/-- The version of a compiler. -/
structure Version where
  major : UInt32
  minor : UInt32
  patch : UInt32
  deriving DecidableEq, Repr

namespace Version

def part? (cs : List Char) : Option UInt32 := (Text.readNat? UInt32.size cs).map Nat.toUInt32

/-- Reads a version between blanks. Any number of letters v may stand before it, and anything after
the first plus or minus sign. -/
def parse (text : String) : Except Error Version :=
  let core := ((Text.trim text.toList).dropWhile (· = 'v')).takeWhile fun c => c ≠ '+' ∧ c ≠ '-'
  match (core.splitOn '.').mapM part? with
  | some [major, minor, patch] => .ok ⟨major, minor, patch⟩
  | _ => .error (.config (.compilerVersion text))

def parts (v : Version) : List Nat := [v.major.toNat, v.minor.toNat, v.patch.toNat]

def render (v : Version) : String := ".".intercalate (v.parts.map toString)

/-- Versions compare part by part. -/
def compare (v w : Version) : Ordering :=
  (Ord.compare v.major w.major).then
    ((Ord.compare v.minor w.minor).then (Ord.compare v.patch w.patch))

end Version

end TreeFacts.Solidity
