import TreeFacts.Proofs.Solidity.Enrichment
import TreeFacts.Proofs.Solidity.TypeText

namespace TreeFacts.Solidity

def externalWord : List Char := "external".toList

/-- The text that is searched for: the word behind a space. -/
def externalMark : List Char := ' ' :: externalWord

/-- The word stands in the text of a type behind a space: as a word of a function type, or at the
front of the path of a declared type. -/
inductive TypeText.MentionsExternal : TypeText → Prop
  | plain {text} : externalMark <:+: text.toList → MentionsExternal (.plain text)
  | declared {sort path} : externalWord <+: path.chars → MentionsExternal (.declared sort path)
  | array {element length} : MentionsExternal element → MentionsExternal (.array element length)
  | located {type location} : MentionsExternal type → MentionsExternal (.located type location)
  | word {parameters words results} :
      .external ∈ words → MentionsExternal (.function parameters words results)
  | parameter {parameters words results t} :
      t ∈ parameters → MentionsExternal t → MentionsExternal (.function parameters words results)
  | result {parameters words results t} :
      t ∈ results → MentionsExternal t → MentionsExternal (.function parameters words results)

open Text

variable {front back : List Char}

theorem not_mark_infix_nil : ¬externalMark <:+: [] := by decide

theorem not_mark_infix_of_notMem (h : ' ' ∉ back) : ¬externalMark <:+: back :=
  not_infix_of_notMem h

theorem mark_infix_append {c : Char} (h : c ∉ externalMark) :
    externalMark <:+: front ++ c :: back ↔ externalMark <:+: front ∨ externalMark <:+: back :=
  infix_append_cons h

theorem mark_infix_cons {c : Char} (h : c ∉ externalMark) :
    externalMark <:+: c :: back ↔ externalMark <:+: back := by
  have hfront := @mark_infix_append [] back c h
  rwa [List.nil_append, or_iff_right not_mark_infix_nil] at hfront

theorem mark_infix_append_furtherChars (t : TypeText) (ts : List TypeText) :
    externalMark <:+: t.chars ++ furtherChars ts ↔
      externalMark <:+: t.chars ∨ externalMark <:+: furtherChars ts := by
  cases ts with
  | nil => rw [furtherChars, List.append_nil, or_iff_left not_mark_infix_nil]
  | cons u ts =>
    have hcomma : ',' ∉ externalMark := by decide
    rw [furtherChars, mark_infix_append hcomma, mark_infix_cons hcomma]

theorem external_prefix_text {w : FunctionWord} :
    externalWord <+: w.text.toList ↔ w = .external := by
  cases w <;> decide

/-- Among words, the mark stands where the word itself does. -/
theorem mark_infix_words {words : List FunctionWord} {others : List (List Char)}
    (hothers : ∀ w ∈ others, ' ' ∉ w ∧ ¬externalWord <+: w) :
    externalMark <:+: wordsChars words ++ others.flatMap (' ' :: ·) ↔ .external ∈ words := by
  have hspaced : wordsChars words ++ others.flatMap (' ' :: ·) =
      [] ++ (words.map (·.text.toList) ++ others).flatMap (' ' :: ·) := by
    rw [List.flatMap_append, List.flatMap_map, List.nil_append]
    rfl
  have hwords : ∀ w ∈ words.map (·.text.toList) ++ others, ' ' ∉ w := by
    intro w hw
    rcases List.mem_append.mp hw with hw | hw
    · obtain ⟨word, -, rfl⟩ := List.mem_map.mp hw
      cases word <;> decide
    · exact (hothers w hw).1
  rw [hspaced, externalMark, marked_infix_flatMap (by decide) List.not_mem_nil hwords]
  constructor
  · rintro ⟨w, hw, hbegins⟩
    rcases List.mem_append.mp hw with hw | hw
    · obtain ⟨word, hword, rfl⟩ := List.mem_map.mp hw
      exact external_prefix_text.mp hbegins ▸ hword
    · exact absurd hbegins (hothers w hw).2
  · intro hmem
    exact ⟨_, List.mem_append_left _ (List.mem_map_of_mem hmem), external_prefix_text.mpr rfl⟩

theorem mark_infix_wordsChars {words : List FunctionWord} {results : List TypeText} :
    externalMark <:+: wordsChars words ++ resultChars results ↔
      .external ∈ words ∨ externalMark <:+: listedChars results := by
  cases results with
  | nil =>
    have hwords := @mark_infix_words words [] (List.forall_mem_nil _)
    rw [List.flatMap_nil] at hwords
    rw [resultChars, listedChars, hwords, or_iff_left not_mark_infix_nil]
  | cons t ts =>
    have hopen : '(' ∉ externalMark := by decide
    have hclose : ')' ∉ externalMark := by decide
    have hsplit : wordsChars words ++ resultChars (t :: ts) =
        (wordsChars words ++ ["returns".toList, []].flatMap (' ' :: ·)) ++
          '(' :: (listedChars (t :: ts) ++ ')' :: []) := by
      have hreturns : returnsHead =
          ["returns".toList, []].flatMap (' ' :: ·) ++ ['('] := by decide
      rw [resultChars, hreturns]
      simp only [listedChars, List.append_assoc, List.cons_append, List.nil_append]
    rw [hsplit, mark_infix_append hopen, mark_infix_append hclose, mark_infix_words (by decide),
      or_iff_left not_mark_infix_nil]

theorem mark_infix_function {words : List FunctionWord} {parameters results : List TypeText} :
    externalMark <:+: (TypeText.function parameters words results).chars ↔
      .external ∈ words ∨ externalMark <:+: listedChars parameters ∨
        externalMark <:+: listedChars results := by
  have hopen : '(' ∉ externalMark := by decide
  have hclose : ')' ∉ externalMark := by decide
  have hhead : functionHead = "function ".toList ++ ['('] := by decide
  have hname : ¬externalMark <:+: "function ".toList := by decide +kernel
  rw [TypeText.chars, hhead, List.append_assoc, List.append_assoc, List.singleton_append,
    mark_infix_append hopen, or_iff_right hname, mark_infix_append hclose, mark_infix_wordsChars,
    or_left_comm]

mutual

theorem mark_infix_chars : ∀ t : TypeText, externalMark <:+: t.chars ↔ t.MentionsExternal
  | .plain text => ⟨.plain, fun | .plain h => h⟩
  | .declared sort path => by
    have hkeyword : ¬externalMark <:+: sort.keyword.toList := by cases sort <;> decide +kernel
    have hpath : ¬externalMark <:+: path.chars := not_mark_infix_of_notMem path.space_notMem
    rw [TypeText.chars, externalMark, marked_infix_append_cons (by decide), ← externalMark,
      or_iff_right hkeyword, or_iff_left hpath]
    exact ⟨.declared, fun | .declared h => h⟩
  | .array element length => by
    have hspace : ' ' ∉ (length.map (Nat.toDigits 10)).getD [] ++ [']'] := fun h =>
      absurd (mem_dimensionChars (List.mem_cons_of_mem _ h)) (by decide)
    rw [TypeText.chars, dimensionChars, mark_infix_append (by decide),
      or_iff_left (not_mark_infix_of_notMem hspace), mark_infix_chars element]
    exact ⟨.array, fun | .array h => h⟩
  | .located type location => by
    have hlocation : ¬externalMark <:+: location.text.toList := by cases location <;> decide +kernel
    have hbegins : ¬externalWord <+: location.text.toList := by cases location <;> decide +kernel
    rw [TypeText.chars, externalMark, marked_infix_append_cons (by decide), ← externalMark,
      or_iff_left (not_or_intro hbegins hlocation), mark_infix_chars type]
    exact ⟨.located, fun | .located h => h⟩
  | .function parameters words results => by
    rw [mark_infix_function, mark_infix_listedChars parameters, mark_infix_listedChars results]
    constructor
    · rintro (hword | ⟨t, ht, hmention⟩ | ⟨t, ht, hmention⟩)
      · exact .word hword
      · exact .parameter ht hmention
      · exact .result ht hmention
    · intro h
      cases h with
      | word hword => exact Or.inl hword
      | parameter ht hmention => exact Or.inr (Or.inl ⟨_, ht, hmention⟩)
      | result ht hmention => exact Or.inr (Or.inr ⟨_, ht, hmention⟩)

theorem mark_infix_listedChars :
    ∀ ts : List TypeText, externalMark <:+: listedChars ts ↔ ∃ t ∈ ts, t.MentionsExternal
  | [] => by simpa [listedChars] using not_mark_infix_nil
  | t :: ts => by
    rw [listedChars, mark_infix_append_furtherChars, mark_infix_chars t,
      mark_infix_furtherChars ts, List.exists_mem_cons_iff]

theorem mark_infix_furtherChars :
    ∀ ts : List TypeText, externalMark <:+: furtherChars ts ↔ ∃ t ∈ ts, t.MentionsExternal
  | [] => by simpa [furtherChars] using not_mark_infix_nil
  | t :: ts => by
    have hcomma : ',' ∉ externalMark := by decide
    rw [furtherChars, mark_infix_cons hcomma, mark_infix_append_furtherChars, mark_infix_chars t,
      mark_infix_furtherChars ts, List.exists_mem_cons_iff]

end

theorem isExternalFunction_iff {words : List FunctionWord} {parameters results : List TypeText} :
    isExternalFunction (TypeText.function parameters words results).text = true ↔
      .external ∈ words ∨ ∃ t ∈ parameters ++ results, t.MentionsExternal := by
  have hmark : " external".toList = externalMark := by decide
  have hhead : functionHead = "function".toList ++ " (".toList := by decide
  have hbegins : "function".toList <+: (TypeText.function parameters words results).chars := by
    rw [TypeText.chars, hhead, List.append_assoc, List.append_assoc]
    exact List.prefix_append _ _
  rw [isExternalFunction, TypeText.toList_text, List.isPrefixOf_iff_prefix.mpr hbegins,
    Bool.true_and, occursIn_iff, hmark, mark_infix_function, mark_infix_listedChars,
    mark_infix_listedChars]
  simp only [List.mem_append, or_and_right, exists_or]

theorem externalCall_mem_nodeFacts {n : Node} (h : n.kind = "FunctionCall") :
    ("externalCall", [FactValue.number n.id]) ∈ nodeFacts n ↔ isExternalCall n = true := by
  have hkind : Kind.ofName n.kind = .ok .functionCall := Kind.ofName_eq_ok.mpr h
  rw [nodeFacts, hkind]
  simp

theorem isExternalCall_eq {n callee : Node} {type : String}
    (hcall : n.text? "kind" = some "functionCall") (hcallee : n.child? "expression" = some callee)
    (htype : callee.text? "typeString" = some type) :
    isExternalCall n = isExternalFunction type := by
  rw [isExternalCall, hcall, hcallee, Option.bind_some, htype, beq_self_eq_true, Bool.true_and]

/-- A call of a function is marked where the word stands behind the parameters, and besides where it
stands behind a space in the text of a parameter or a result. -/
theorem externalCall_iff (version? : Option Version) {n callee : Node}
    {parameters results : List TypeText} {words : List FunctionWord} (hkind : n.kind = "FunctionCall")
    (hcall : n.text? "kind" = some "functionCall") (hcallee : n.child? "expression" = some callee)
    (htype : callee.text? "typeString" =
      some (TypeText.function parameters words results).text) :
    ("externalCall", [FactValue.number n.id]) ∈ (enrichment version?).ofNode n ↔
      .external ∈ words ∨ ∃ t ∈ parameters ++ results, t.MentionsExternal :=
  (externalCall_mem_nodeFacts hkind).trans
    (isExternalCall_eq hcall hcallee htype ▸ isExternalFunction_iff)

/-- A call of what has the given type string. -/
def callOf (type : String) : Node :=
  .mk 10 "0:9:0" "FunctionCall"
    [("expression", .node (.mk 11 "0:6:0" "Identifier" [("typeString", .text type)])),
      ("kind", .text "functionCall")]

/-- Takes data of a declared type and a function to be called inside. -/
def lookupParameters : List TypeText :=
  [.located (.declared .struct ⟨⟨"Ledger", by decide⟩, [⟨"externalData", by decide⟩]⟩) .memory,
    .function [.plain "uint256"] [.pure] [.plain "bool"]]

theorem externalCall_iff_lookup :
    (TypeText.function lookupParameters [.view] []).text =
        "function (struct Ledger.externalData memory,function (uint256) pure returns (bool)) view" ∧
      ("externalCall", [FactValue.number 10]) ∉ (enrichment none).ofNode
        (callOf (TypeText.function lookupParameters [.view] []).text) ∧
      ("externalCall", [FactValue.number 10]) ∈ (enrichment none).ofNode
        (callOf (TypeText.function lookupParameters [.external, .view] []).text) := by
  have hmention : ¬∃ t ∈ lookupParameters ++ [], t.MentionsExternal := by
    rw [← mark_infix_listedChars]
    decide +kernel
  have hcall (words : List FunctionWord) : ("externalCall", [FactValue.number 10]) ∈
      (enrichment none).ofNode (callOf (TypeText.function lookupParameters words []).text) ↔
        .external ∈ words ∨ ∃ t ∈ lookupParameters ++ [], t.MentionsExternal :=
    externalCall_iff none rfl rfl rfl rfl
  refine ⟨by decide +kernel, fun hmem => ?_, (hcall _).mpr (Or.inl (by decide))⟩
  exact ((hcall _).mp hmem).elim (by decide) hmention

/-- A function that is called inside counts as external where it takes one that is. -/
theorem externalCall_nested :
    FunctionWord.external ∉ [FunctionWord.pure] ∧
      (TypeText.function [.function [] [.external] []] [.pure] []).text =
        "function (function () external) pure" ∧
      ("externalCall", [FactValue.number 10]) ∈ (enrichment none).ofNode
        (callOf "function (function () external) pure") :=
  ⟨by decide, by decide, by decide⟩

end TreeFacts.Solidity
