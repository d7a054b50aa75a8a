import TreeFacts.Proofs.Program.Fields
import TreeFacts.Proofs.Solidity.TypeText

namespace TreeFacts.Solidity

/-- The name of an elementary type. -/
structure ElementaryName where
  name : String
  ne_empty : name ≠ "" := by decide
  isAlphanum : name.toList.all Char.isAlphanum = true := by decide

/-- What stands in the type string of a parameter before dimensions and location. -/
inductive BaseType where
  | elementary (name : ElementaryName)
  | payableAddress
  | declared (sort : DeclaredSort) (path : Path)
  | function (parameters : List TypeText) (words : List FunctionWord) (results : List TypeText)

namespace BaseType

def payableChars : List Char := "address payable".toList

def chars : BaseType → List Char
  | elementary name => name.name.toList
  | payableAddress => payableChars
  | declared sort path => (TypeText.declared sort path).chars
  | function parameters words results => (TypeText.function parameters words results).chars

/-- The name of the type in an interface. -/
def abiChars : BaseType → List Char
  | elementary name => name.name.toList
  | payableAddress | declared .contract _ => "address".toList
  | declared .enumeration _ => "uint8".toList
  | declared .struct path => path.chars
  | function _ _ _ => "function".toList

end BaseType

/-- The type of a parameter as a compiler describes it. -/
structure ParameterType where
  base : BaseType
  dimensions : List (Option Nat)
  location : Option DataLocation

def DataLocation.mark (l : DataLocation) : List Char := ' ' :: l.text.toList

namespace ParameterType

def dimensionsChars (t : ParameterType) : List Char := t.dimensions.flatMap dimensionChars

def chars (t : ParameterType) : List Char :=
  t.base.chars ++ t.dimensionsChars ++ (t.location.map DataLocation.mark).getD []

def text (t : ParameterType) : String := String.ofList t.chars

def abiName (t : ParameterType) : String := String.ofList (t.base.abiChars ++ t.dimensionsChars)

end ParameterType

namespace DataLocation

/-- What stands before the last space. -/
def lead : DataLocation → List Char
  | storageRef | storagePointer => " storage".toList
  | memory | calldata | storage => []

def lastWord : DataLocation → List Char
  | storageRef => "ref".toList
  | storagePointer => "pointer".toList
  | memory => "memory".toList
  | calldata => "calldata".toList
  | storage => "storage".toList

variable {l m : DataLocation} {front : List Char}

theorem mark_eq (l : DataLocation) : l.mark = l.lead ++ ' ' :: l.lastWord := by
  cases l <;> decide

theorem space_notMem_lastWord (l : DataLocation) : ' ' ∉ l.lastWord := by cases l <;> decide

theorem lastWord_inj (h : l.lastWord = m.lastWord) : l = m := by
  cases l <;> cases m <;> first | rfl | exact absurd h (by decide)

/-- No location ends with another, but for the spaces within it. -/
theorem mark_suffix_iff : l.mark <:+ front ++ m.mark ↔ l = m := by
  constructor
  · intro h
    rw [mark_eq l, mark_eq m, ← List.append_assoc,
      Text.suffix_append_cons_iff (space_notMem_lastWord l) (space_notMem_lastWord m)] at h
    exact lastWord_inj h.2
  · rintro rfl
    exact List.suffix_append front l.mark

end DataLocation

variable {l : DataLocation} {cs front : List Char} {c : Char}

theorem not_mark_suffix_concat (h : c ∉ l.mark) : ¬l.mark <:+ front ++ [c] := by
  intro hsuffix
  rcases List.suffix_concat_iff.mp hsuffix with hnil | ⟨rest, hrest, -⟩
  · cases hnil
  · exact h (hrest ▸ List.mem_concat_self)

theorem DataLocation.close_notMem_mark (l : DataLocation) : ')' ∉ l.mark ∧ ']' ∉ l.mark := by
  cases l <;> decide

theorem ElementaryName.notMem (name : ElementaryName) (h : c.isAlphanum = false) :
    c ∉ name.name.toList := by
  intro hmem
  rw [List.all_eq_true.mp name.isAlphanum c hmem] at h
  cases h

theorem BaseType.chars_function (parameters : List TypeText) (words : List FunctionWord)
    (results : List TypeText) : ∃ rest,
      (BaseType.function parameters words results).chars = functionHead ++ rest := by
  refine ⟨listedChars parameters ++ ')' :: (wordsChars words ++ resultChars results), ?_⟩
  rw [BaseType.chars, TypeText.chars, List.append_assoc]

/-- Where a bracket stands in a base type, there is a function type in front of it. -/
theorem BaseType.exists_of_bracket_mem {base : BaseType} (h : '[' ∈ base.chars) :
    ∃ front back, '[' ∉ functionHead ++ front ∧
      base.chars = functionHead ++ front ++ '[' :: back ∧ base.abiChars = "function".toList := by
  cases base with
  | elementary name => exact absurd h (name.notMem (by decide))
  | payableAddress => exact absurd h (by decide)
  | declared sort path =>
    rcases List.mem_append.mp h with hkeyword | hpath
    · cases sort <;> exact absurd hkeyword (by decide)
    · rcases List.mem_cons.mp hpath with hspace | hpath
      · cases hspace
      · exact absurd hpath path.bracket_notMem
  | function parameters words results =>
    obtain ⟨rest, hrest⟩ := BaseType.chars_function parameters words results
    have hhead : '[' ∉ functionHead := by decide
    rw [hrest] at h ⊢
    obtain ⟨front, back, rfl, hfront⟩ := List.eq_append_cons_of_mem
      ((List.mem_append.mp h).resolve_left hhead)
    exact ⟨front, back, fun hmem => (List.mem_append.mp hmem).elim hhead hfront,
      (List.append_assoc _ _ _).symm, rfl⟩

theorem mark_suffix_declared {sort : DeclaredSort} {path : Path} :
    l.mark <:+ (TypeText.declared sort path).chars ↔ path.chars = l.text.toList := by
  constructor
  · intro h
    rw [TypeText.chars, DataLocation.mark_eq, Text.suffix_append_cons_iff
      l.space_notMem_lastWord path.space_notMem] at h
    obtain ⟨hlead, hword⟩ := h
    rw [← hword]
    -- A location of two words would leave the first of them to the keyword.
    cases l <;> cases sort <;> first | decide | exact absurd hlead (by decide +kernel)
  · intro h
    rw [TypeText.chars, h]
    exact List.suffix_append _ l.mark

theorem wordsChars_concat (words : List FunctionWord) (w : FunctionWord) :
    wordsChars (words ++ [w]) = wordsChars words ++ ' ' :: w.text.toList := by
  rw [wordsChars, List.flatMap_append, List.flatMap_singleton]
  rfl

/-- A function type ends with a bracket or with a word that is no location's. -/
theorem not_mark_suffix_function (parameters : List TypeText) (words : List FunctionWord)
    (results : List TypeText) : ¬l.mark <:+ (TypeText.function parameters words results).chars := by
  rw [TypeText.chars]
  cases results with
  | cons t ts =>
    have hend : functionHead ++ listedChars parameters ++
        ')' :: (wordsChars words ++ resultChars (t :: ts)) =
        (functionHead ++ listedChars parameters ++
          ')' :: (wordsChars words ++ (returnsHead ++ (t.chars ++ furtherChars ts)))) ++ [')'] := by
      rw [resultChars]
      simp only [List.append_assoc, List.cons_append]
    rw [hend]
    exact not_mark_suffix_concat l.close_notMem_mark.1
  | nil =>
    rw [resultChars, List.append_nil]
    rcases List.eq_nil_or_concat words with rfl | ⟨words, w, rfl⟩
    · exact not_mark_suffix_concat l.close_notMem_mark.1
    · have hend : functionHead ++ listedChars parameters ++ ')' :: wordsChars (words ++ [w]) =
          (functionHead ++ listedChars parameters ++ ')' :: wordsChars words) ++
            ' ' :: w.text.toList := by
        rw [wordsChars_concat, List.append_assoc _ (')' :: _), List.cons_append]
      have hspace : ' ' ∉ w.text.toList := by cases w <;> decide
      rw [List.concat_eq_append, hend, DataLocation.mark_eq,
        Text.suffix_append_cons_iff l.space_notMem_lastWord hspace]
      rintro ⟨-, hword⟩
      cases l <;> cases w <;> exact absurd hword (by decide)

/-- No blank stands at the end. -/
def EndsVisibly (cs : List Char) : Prop := ∀ c ∈ cs.getLast?, Text.isBlank c = false

theorem EndsVisibly.append {front back : List Char} (hfront : EndsVisibly front)
    (hback : EndsVisibly back) : EndsVisibly (front ++ back) := by
  intro c hc
  rw [List.getLast?_append] at hc
  rcases Option.or_eq_some_iff.mp hc with hlast | ⟨-, hlast⟩
  · exact hback c hlast
  · exact hfront c hlast

theorem endsVisibly_of_forall (h : ∀ c ∈ cs, Text.isBlank c = false) : EndsVisibly cs :=
  fun c hc => h c (List.mem_of_getLast? hc)

theorem endsVisibly_concat (front : List Char) (h : Text.isBlank c = false) :
    EndsVisibly (front ++ [c]) := by
  intro d hd
  rw [List.getLast?_concat] at hd
  exact Option.some.inj hd ▸ h

theorem DataLocation.mark_endsVisibly (l : DataLocation) : EndsVisibly l.mark := by
  cases l <;> exact fun c hc => Option.some.inj hc ▸ by decide

theorem wordsChars_endsVisibly (words : List FunctionWord) : EndsVisibly (wordsChars words) := by
  rcases List.eq_nil_or_concat words with rfl | ⟨words, w, rfl⟩
  · exact endsVisibly_of_forall (List.forall_mem_nil _)
  · intro c hc
    have hne : ' ' :: w.text.toList ≠ [] := List.cons_ne_nil _ _
    have hword : EndsVisibly (' ' :: w.text.toList) := by
      cases w <;> exact fun c hc => Option.some.inj hc ▸ by decide
    rw [List.concat_eq_append, wordsChars_concat, List.getLast?_append_of_ne_nil _ hne] at hc
    exact hword c hc

theorem resultChars_endsVisibly (results : List TypeText) : EndsVisibly (resultChars results) := by
  cases results with
  | nil => exact endsVisibly_of_forall (List.forall_mem_nil _)
  | cons t ts => exact endsVisibly_concat _ (by decide)

theorem isBlank_of_isAlphanum (h : c.isAlphanum = true) : Text.isBlank c = false :=
  Program.isBlank_of_isNameChar (by rw [Program.isNameChar, h, Bool.true_or])

theorem ElementaryName.isBlank_of_mem (name : ElementaryName) (h : c ∈ name.name.toList) :
    Text.isBlank c = false :=
  isBlank_of_isAlphanum (List.all_eq_true.mp name.isAlphanum c h)

theorem BaseType.endsVisibly (base : BaseType) : EndsVisibly base.chars := by
  cases base with
  | elementary name => exact endsVisibly_of_forall fun c hc => name.isBlank_of_mem hc
  | payableAddress => exact fun c hc => Option.some.inj hc ▸ by decide
  | declared sort path =>
    intro c hc
    rw [BaseType.chars, TypeText.chars, List.append_cons,
      List.getLast?_append_of_ne_nil _ path.chars_ne_nil] at hc
    exact path.isBlank_of_mem (List.mem_of_getLast? hc)
  | function parameters words results =>
    rw [BaseType.chars, TypeText.chars, List.append_cons]
    exact (endsVisibly_concat _ (by decide)).append
      ((wordsChars_endsVisibly words).append (resultChars_endsVisibly results))

/-- The text of a base type begins with a character that is no blank. -/
theorem BaseType.exists_cons (base : BaseType) :
    ∃ c rest, base.chars = c :: rest ∧ Text.isBlank c = false := by
  cases base with
  | elementary name =>
    have hne : name.name.toList ≠ [] := mt String.toList_eq_nil_iff.mp name.ne_empty
    obtain ⟨c, rest, hrest⟩ := List.exists_cons_of_ne_nil hne
    exact ⟨c, rest, hrest, name.isBlank_of_mem (hrest ▸ List.mem_cons_self)⟩
  | payableAddress => exact ⟨'a', "ddress payable".toList, by decide, by decide⟩
  | declared sort path =>
    cases sort with
    | contract => exact ⟨'c', "ontract".toList ++ ' ' :: path.chars, rfl, by decide⟩
    | enumeration => exact ⟨'e', "num".toList ++ ' ' :: path.chars, rfl, by decide⟩
    | struct => exact ⟨'s', "truct".toList ++ ' ' :: path.chars, rfl, by decide⟩
  | function parameters words results =>
    obtain ⟨rest, hrest⟩ := BaseType.chars_function parameters words results
    exact ⟨'f', "unction (".toList ++ rest, hrest, by decide⟩

theorem ParameterType.isBlank_of_mem_dimensions {t : ParameterType} (h : c ∈ t.dimensionsChars) :
    Text.isBlank c = false := by
  obtain ⟨length, -, hc⟩ := List.mem_flatMap.mp h
  rcases mem_dimensionChars hc with rfl | hdigit | rfl
  · decide
  · exact isBlank_of_isAlphanum (by rw [Char.isAlphanum, hdigit, Bool.or_true])
  · decide

theorem ParameterType.trim_chars (t : ParameterType) : Text.trim t.chars = t.chars := by
  have hend : EndsVisibly t.chars := by
    refine (t.base.endsVisibly.append ?_).append ?_
    · exact endsVisibly_of_forall fun c => isBlank_of_mem_dimensions
    · cases t.location with
      | none => exact endsVisibly_of_forall (List.forall_mem_nil _)
      | some l => exact l.mark_endsVisibly
  refine Text.trim_eq_self (fun c hc => ?_) hend
  obtain ⟨d, rest, hrest, hd⟩ := t.base.exists_cons
  rw [ParameterType.chars, hrest] at hc
  exact Option.some.inj hc ▸ hd

/-- Nothing follows a declared type whose name is a word for a location. -/
def ParameterType.NamesLocation (t : ParameterType) : Prop :=
  t.dimensions = [] ∧ t.location = none ∧
    ∃ sort path, t.base = .declared sort path ∧ ∃ l : DataLocation, path.chars = l.text.toList

theorem not_mark_suffix_base {base : BaseType}
    (h : ∀ sort path, base = .declared sort path → path.chars ≠ l.text.toList) :
    ¬l.mark <:+ base.chars := by
  cases base with
  | elementary name =>
    exact fun hsuffix => name.notMem (by decide) (hsuffix.subset List.mem_cons_self)
  | payableAddress => cases l <;> decide +kernel
  | declared sort path => exact fun hsuffix => h sort path rfl (mark_suffix_declared.mp hsuffix)
  | function parameters words results => exact not_mark_suffix_function parameters words results

theorem ParameterType.not_mark_suffix {t : ParameterType} (hlocation : t.location = none)
    (h : ¬t.NamesLocation) : ¬l.mark <:+ t.base.chars ++ t.dimensionsChars := by
  rcases List.eq_nil_or_concat t.dimensions with hnil | ⟨lengths, length, hlengths⟩
  · rw [ParameterType.dimensionsChars, hnil, List.flatMap_nil, List.append_nil]
    refine not_mark_suffix_base fun sort path hbase hpath => ?_
    exact h ⟨hnil, hlocation, sort, path, hbase, l, hpath⟩
  · have hend : t.base.chars ++ t.dimensionsChars =
        (t.base.chars ++ (lengths.flatMap dimensionChars ++
          '[' :: (length.map (Nat.toDigits 10)).getD [])) ++ [']'] := by
      rw [ParameterType.dimensionsChars, hlengths, List.concat_eq_append, List.flatMap_append,
        List.flatMap_singleton, dimensionChars]
      simp only [List.append_assoc, List.cons_append]
    rw [hend]
    exact not_mark_suffix_concat l.close_notMem_mark.2

theorem ParameterType.head?_dimensionsChars (t : ParameterType) :
    ∀ c ∈ t.dimensionsChars.head?, c = '[' := by
  intro c hc
  rw [ParameterType.dimensionsChars] at hc
  cases hlengths : t.dimensions with
  | nil => rw [hlengths] at hc; cases hc
  | cons length lengths => rw [hlengths] at hc; exact (Option.some.inj hc).symm

theorem ParameterType.toList_text (t : ParameterType) : t.text.toList = t.chars :=
  String.toList_ofList

end TreeFacts.Solidity
