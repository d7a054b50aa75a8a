import TreeFacts.Proofs.Occurrence
import TreeFacts.Proofs.Program.Lexeme
import TreeFacts.Text.Basic

namespace TreeFacts.Solidity

/-- Words behind the parameters of a function type. -/
inductive FunctionWord where
  | pure
  | view
  | payable
  | internal
  | external
  deriving DecidableEq, Repr

def FunctionWord.text : FunctionWord → String
  | .pure => "pure"
  | .view => "view"
  | .payable => "payable"
  | .internal => "internal"
  | .external => "external"

/-- Where the value of a reference type is kept. -/
inductive DataLocation where
  | storageRef
  | storagePointer
  | memory
  | calldata
  | storage
  deriving DecidableEq, Repr

def DataLocation.text : DataLocation → String
  | .storageRef => "storage ref"
  | .storagePointer => "storage pointer"
  | .memory => "memory"
  | .calldata => "calldata"
  | .storage => "storage"

/-- The sorts of types that a program declares under a name. -/
inductive DeclaredSort where
  | contract
  | enumeration
  | struct
  deriving DecidableEq, Repr

def DeclaredSort.keyword : DeclaredSort → String
  | .contract => "contract"
  | .enumeration => "enum"
  | .struct => "struct"

def isIdentifierChar (c : Char) : Bool := Program.isNameChar c || c = '$'

/-- Letters, underscores and dollar signs, behind the first also digits. -/
def IsIdentifier (name : String) : Prop :=
  name.toList.head?.any (fun c => Program.isNameStart c || c = '$') = true ∧
    name.toList.all isIdentifierChar = true

instance (name : String) : Decidable (IsIdentifier name) := inferInstanceAs (Decidable (_ ∧ _))

structure Identifier where
  name : String
  isIdentifier : IsIdentifier name := by decide

/-- A name, and behind points the names of what is declared inside. -/
structure Path where
  first : Identifier
  rest : List Identifier := []

namespace Path

def chars (p : Path) : List Char :=
  p.first.name.toList ++ p.rest.flatMap fun i => '.' :: i.name.toList

def isPathChar (c : Char) : Bool := isIdentifierChar c || c = '.'

theorem isPathChar_of_mem {p : Path} {c : Char} (h : c ∈ p.chars) : isPathChar c = true := by
  have hname : ∀ i : Identifier, c ∈ i.name.toList → isPathChar c = true := by
    intro i hi
    rw [isPathChar, List.all_eq_true.mp i.isIdentifier.2 c hi, Bool.true_or]
  rcases List.mem_append.mp h with hfirst | hrest
  · exact hname p.first hfirst
  · obtain ⟨i, -, hi⟩ := List.mem_flatMap.mp hrest
    rcases List.mem_cons.mp hi with rfl | hi
    · rfl
    · exact hname i hi

theorem isBlank_of_mem {p : Path} {c : Char} (h : c ∈ p.chars) : Text.isBlank c = false := by
  have hchar : (Program.isNameChar c = true ∨ c = '$') ∨ c = '.' := by
    simpa [isPathChar, isIdentifierChar] using isPathChar_of_mem h
  rcases hchar with (hname | rfl) | rfl
  · exact Program.isBlank_of_isNameChar hname
  · decide
  · decide

theorem chars_ne_nil (p : Path) : p.chars ≠ [] := by
  intro hnil
  have hfirst : p.first.name.toList = [] := (List.append_eq_nil_iff.mp hnil).1
  have hstart := p.first.isIdentifier.1
  rw [hfirst] at hstart
  cases hstart

theorem space_notMem (p : Path) : ' ' ∉ p.chars :=
  fun h => absurd (isPathChar_of_mem h) (by decide)

theorem bracket_notMem (p : Path) : '[' ∉ p.chars :=
  fun h => absurd (isPathChar_of_mem h) (by decide)

end Path

/-- What a compiler writes about types. A type without parts that matter here is its text. -/
inductive TypeText where
  | plain (text : String)
  | declared (sort : DeclaredSort) (path : Path)
  | array (element : TypeText) (length : Option Nat)
  | located (type : TypeText) (location : DataLocation)
  | function (parameters : List TypeText) (words : List FunctionWord) (results : List TypeText)

/-- A dimension of an array, with its length if that is fixed. -/
def dimensionChars (length : Option Nat) : List Char :=
  '[' :: ((length.map (Nat.toDigits 10)).getD [] ++ [']'])

theorem mem_dimensionChars {length : Option Nat} {c : Char} (h : c ∈ dimensionChars length) :
    c = '[' ∨ c.isDigit = true ∨ c = ']' := by
  rcases List.mem_cons.mp h with rfl | h
  · exact Or.inl rfl
  rcases List.mem_append.mp h with h | h
  · cases length with
    | none => cases h
    | some n =>
      exact Or.inr (Or.inl (Nat.isDigit_of_mem_toDigits (by decide) (by decide) h))
  · exact Or.inr (Or.inr (List.mem_singleton.mp h))

def wordsChars (words : List FunctionWord) : List Char :=
  words.flatMap fun w => ' ' :: w.text.toList

/-- What stands before the parameters of a function type. -/
def functionHead : List Char := "function (".toList

/-- What stands before the results of a function type. -/
def returnsHead : List Char := " returns (".toList

mutual

def TypeText.chars : TypeText → List Char
  | .plain text => text.toList
  | .declared sort path => sort.keyword.toList ++ ' ' :: path.chars
  | .array element length => element.chars ++ dimensionChars length
  | .located type location => type.chars ++ ' ' :: location.text.toList
  | .function parameters words results =>
    functionHead ++ listedChars parameters ++ ')' :: (wordsChars words ++ resultChars results)

/-- Types between commas. -/
def listedChars : List TypeText → List Char
  | [] => []
  | t :: ts => t.chars ++ furtherChars ts

def furtherChars : List TypeText → List Char
  | [] => []
  | t :: ts => ',' :: (t.chars ++ furtherChars ts)

/-- The results of a function, if it has any. -/
def resultChars : List TypeText → List Char
  | [] => []
  | t :: ts => returnsHead ++ (t.chars ++ furtherChars ts) ++ [')']

end

def TypeText.text (t : TypeText) : String := String.ofList t.chars

theorem TypeText.toList_text (t : TypeText) : t.text.toList = t.chars := String.toList_ofList

end TreeFacts.Solidity
