import TreeFacts.Text.Numeral

namespace TreeFacts

/-- A value in one column of a fact. Values are ordered by kind in this order, then by content. -/
inductive FactValue where
  | number (n : Int64)
  | symbol (s : String)
  /-- the record without fields that ends a list -/
  | nil
  | record (fields : List FactValue)
  | branch (tag : String) (args : List FactValue)

/-- One value per column. -/
abbrev Tuple := List FactValue

/-- A tuple of the named relation. -/
abbrev Fact := String × Tuple

namespace FactValue

instance : Inhabited FactValue := ⟨nil⟩

def ofBool (b : Bool) : FactValue := number (if b then 1 else 0)

/-- A list as a chain of cells, each an element and the rest. -/
def ofList (items : List FactValue) : FactValue :=
  items.foldr (fun head tail => record [head, tail]) nil

def number? : FactValue → Option Int64
  | number n => some n
  | _ => none

def symbol? : FactValue → Option String
  | symbol s => some s
  | _ => none

/-- A symbol inside a record or a branch: a quote and a backslash stand after a backslash. -/
def escapeSymbol (c : Char) : List Char := if c = '"' ∨ c = '\\' then ['\\', c] else [c]

mutual

/-- The text of a value as it stands inside a record or a branch. -/
def render : FactValue → String
  | number n => Text.showInt64 n
  | symbol s => "\"" ++ String.ofList (s.toList.flatMap escapeSymbol) ++ "\""
  | nil => "nil"
  | record fields => "[" ++ ", ".intercalate (renderAll fields) ++ "]"
  | branch tag [] => "$" ++ tag
  | branch tag args => "$" ++ tag ++ "(" ++ ", ".intercalate (renderAll args) ++ ")"

def renderAll : List FactValue → List String
  | [] => []
  | v :: rest => v.render :: renderAll rest

end

/-- The position of a value's kind in the order of values. -/
def rank : FactValue → Nat
  | number _ => 0
  | symbol _ => 1
  | nil => 2
  | record _ => 3
  | branch _ _ => 4

mutual

/-- The order of values; lists compare element by element. -/
def compare : FactValue → FactValue → Ordering
  | number m, number n => Ord.compare m.toInt n.toInt
  | symbol s, symbol t => compareOfLessAndEq s t
  | record xs, record ys => compareAll xs ys
  | branch s xs, branch t ys => (compareOfLessAndEq s t).then (compareAll xs ys)
  | v, w => Ord.compare v.rank w.rank

def compareAll : List FactValue → List FactValue → Ordering
  | [], [] => .eq
  | [], _ :: _ => .lt
  | _ :: _, [] => .gt
  | v :: vs, w :: ws => (compare v w).then (compareAll vs ws)

end

mutual

def decEq : (v w : FactValue) → Decidable (v = w)
  | number m, number n => decidable_of_iff (m = n) (by simp)
  | symbol s, symbol t => decidable_of_iff (s = t) (by simp)
  | nil, nil => .isTrue rfl
  | record xs, record ys =>
    have := decEqAll xs ys
    decidable_of_iff (xs = ys) (by simp)
  | branch s xs, branch t ys =>
    have := decEqAll xs ys
    decidable_of_iff (s = t ∧ xs = ys) (by simp)
  | number _, symbol _ | number _, nil | number _, record _ | number _, branch _ _
  | symbol _, number _ | symbol _, nil | symbol _, record _ | symbol _, branch _ _
  | nil, number _ | nil, symbol _ | nil, record _ | nil, branch _ _
  | record _, number _ | record _, symbol _ | record _, nil | record _, branch _ _
  | branch _ _, number _ | branch _ _, symbol _ | branch _ _, nil | branch _ _, record _ =>
    .isFalse (by simp)

def decEqAll : (vs ws : List FactValue) → Decidable (vs = ws)
  | [], [] => .isTrue rfl
  | [], _ :: _ => .isFalse (by simp)
  | _ :: _, [] => .isFalse (by simp)
  | v :: vs, w :: ws =>
    have := decEq v w
    have := decEqAll vs ws
    decidable_of_iff (v = w ∧ vs = ws) (by simp)

end

instance : DecidableEq FactValue := decEq

end FactValue

end TreeFacts
