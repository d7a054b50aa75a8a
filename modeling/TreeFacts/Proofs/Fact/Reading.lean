import TreeFacts.Proofs.Fact.Typing
import TreeFacts.Proofs.Numeral
import TreeFacts.Proofs.Result
import TreeFacts.Proofs.Runs

namespace TreeFacts

theorem Text.trimStart_of_not_isBlank {c : Char} (h : isBlank c = false) (cs : List Char) :
    trimStart (c :: cs) = c :: cs := by
  simp [trimStart, h]

theorem Text.trimStart_space (cs : List Char) : trimStart (' ' :: cs) = trimStart cs := by
  have h : isBlank ' ' = true := by decide
  simp [trimStart, h]

namespace FactValue

theorem isDelimiter_cases {c : Char} (h : isDelimiter c = true) : c = ',' ∨ c = ']' ∨ c = ')' := by
  simpa [isDelimiter, or_assoc] using h

theorem isBlank_of_isDelimiter {c : Char} (h : isDelimiter c = true) : Text.isBlank c = false := by
  rcases isDelimiter_cases h with rfl | rfl | rfl <;> decide

theorem trimStart_of_stopsAt {rest : List Char} (h : Text.StopsAt isDelimiter rest) :
    Text.trimStart rest = rest := by
  obtain rfl | ⟨c, cs, rfl, hc⟩ := h.cases
  · rfl
  · exact Text.trimStart_of_not_isBlank (isBlank_of_isDelimiter hc) cs

theorem isNumeralChar_of_isDelimiter {c : Char} (h : isDelimiter c = true) :
    isNumeralChar c = false := by
  rcases isDelimiter_cases h with rfl | rfl | rfl <;> decide

theorem isTagChar_of_isDelimiter {c : Char} (h : isDelimiter c = true) :
    isTagChar c = false := by
  rcases isDelimiter_cases h with rfl | rfl | rfl <;> decide

theorem isBlank_of_isNumeralChar {c : Char} (h : isNumeralChar c = true) :
    Text.isBlank c = false := by
  rcases Bool.or_eq_true_iff.mp h with hc | hc
  · have hc' : c = '-' := by simpa using hc
    subst hc'
    decide
  · have hd : 48 ≤ c.toNat ∧ c.toNat ≤ 57 := by
      simpa [Char.isDigit, UInt32.le_iff_toNat_le] using hc
    exact Text.isBlank_of_visible (by omega) (by omega)

theorem eat?_of_toList {token : String} {c : Char} {cs : List Char} (ht : token.toList = c :: cs)
    (hc : Text.isBlank c = false) (rest : List Char) : eat? token (c :: (cs ++ rest)) = some rest := by
  have hlen : token.length = (c :: cs).length := by rw [← ht, String.length_toList]
  have hpre : (c :: cs).isPrefixOf ((c :: cs) ++ rest) = true := by
    simp [List.isPrefixOf_iff_prefix]
  rw [List.cons_append] at hpre
  simp [eat?, Text.trimStart_of_not_isBlank hc, ht, hpre, hlen]

theorem eat?_char {token : String} {c : Char} (ht : token.toList = [c])
    (hc : Text.isBlank c = false) (rest : List Char) : eat? token (c :: rest) = some rest := by
  simpa only [List.nil_append] using eat?_of_toList ht hc rest

theorem eat?_eq_none {token : String} {c d : Char} {cs : List Char} (ht : token.toList = c :: cs)
    (hd : Text.isBlank d = false) (hne : c ≠ d) (rest : List Char) :
    eat? token (d :: rest) = none := by
  simp [eat?, Text.trimStart_of_not_isBlank hd, ht, List.isPrefixOf, hne]

theorem eat?_open_of_stopsAt {rest : List Char} (h : Text.StopsAt isDelimiter rest) :
    eat? "(" rest = none := by
  obtain rfl | ⟨c, cs, rfl, hc⟩ := h.cases
  · rfl
  · have hne : '(' ≠ c := by rcases isDelimiter_cases hc with rfl | rfl | rfl <;> decide
    exact eat?_eq_none rfl (isBlank_of_isDelimiter hc) hne cs

theorem expect_char (text : String) {token : String} {c : Char} (ht : token.toList = [c])
    (hc : Text.isBlank c = false) (rest : List Char) : expect text token (c :: rest) = .ok rest := by
  simp only [expect, eat?_char ht hc]

theorem quotedSymbol?_escape (s rest : List Char) :
    quotedSymbol? (s.flatMap escapeSymbol ++ '"' :: rest) = some (s, rest) := by
  induction s with
  | nil => simp [quotedSymbol?]
  | cons c s ih =>
    rw [List.flatMap_cons, List.append_assoc]
    by_cases hq : c = '"' ∨ c = '\\'
    · simp [escapeSymbol, hq, quotedSymbol?, ih]
    · have hquote : c ≠ '"' := fun h => hq (Or.inl h)
      have hback : c ≠ '\\' := fun h => hq (Or.inr h)
      simp only [escapeSymbol, hq, ↓reduceIte, List.cons_append, List.nil_append]
      rw [quotedSymbol?.eq_def]
      split
      next h => simp at h
      next h => exact absurd (List.cons.inj h).1 hquote
      next h => exact absurd (List.cons.inj h).1 hback
      next h =>
        obtain ⟨rfl, rfl⟩ := List.cons.inj h
        simp [hback, ih]

theorem toList_render_symbol (s : String) :
    (symbol s).render.toList = '"' :: (s.toList.flatMap escapeSymbol ++ ['"']) := by
  simp [render]

theorem readSymbol_render (text s : String) (rest : List Char) :
    readSymbol text ((symbol s).render.toList ++ rest) = .ok (symbol s, rest) := by
  have heat := eat?_char (show "\"".toList = ['"'] from rfl) (by decide)
    (s.toList.flatMap escapeSymbol ++ '"' :: rest)
  simp only [toList_render_symbol, List.cons_append, List.append_assoc, List.nil_append, readSymbol,
    heat, quotedSymbol?_escape, String.ofList_toList]

theorem readNumber_render (n : Int64) {rest : List Char} (h : Text.StopsAt isDelimiter rest) :
    readNumber ((number n).render.toList ++ rest) = .ok (number n, rest) := by
  have hnum : ∀ c ∈ (Text.showInt64 n).toList, isNumeralChar c = true :=
    fun c hc => isNumeralChar_of_mem_showInt64 hc
  have htake := h.takeWhile_append (fun _ => isNumeralChar_of_isDelimiter) hnum
  have hdrop := h.dropWhile_append (fun _ => isNumeralChar_of_isDelimiter) hnum
  simp only [render, readNumber, htake, hdrop, parseNumber_showInt64]
  rfl

/-- The values behind the first in a record or a branch, as they are written. -/
def moreText (vs : List FactValue) : List Char :=
  vs.flatMap fun v => ',' :: ' ' :: v.render.toList

/-- The values in a record or a branch, as they are written. -/
def valuesText : List FactValue → List Char
  | [] => []
  | v :: vs => v.render.toList ++ moreText vs

theorem toList_joined (vs : List FactValue) :
    (", ".intercalate (renderAll vs)).toList = valuesText vs := by
  induction vs with
  | nil => rfl
  | cons v vs ih =>
    cases vs with
    | nil => simp [renderAll, valuesText, moreText]
    | cons w vs =>
      rw [renderAll] at ih ⊢
      rw [renderAll, String.intercalate_cons_cons]
      simp only [String.toList_append, ih, valuesText, moreText, List.flatMap_cons,
        List.append_assoc]
      rfl

theorem toList_render_record (vs : List FactValue) :
    (record vs).render.toList = '[' :: (valuesText vs ++ [']']) := by
  simp only [render, String.toList_append, toList_joined]
  rfl

theorem toList_render_branch (tag : String) (v : FactValue) (vs : List FactValue) :
    (branch tag (v :: vs)).render.toList =
      '$' :: (tag.toList ++ '(' :: (valuesText (v :: vs) ++ [')'])) := by
  simp only [render, String.toList_append, toList_joined, List.append_assoc]
  rfl

theorem toList_render_tag (tag : String) : (branch tag []).render.toList = '$' :: tag.toList := by
  simp only [render, String.toList_append]
  rfl

theorem stopsAt_moreText {vs : List FactValue} {rest : List Char}
    (h : Text.StopsAt isDelimiter rest) : Text.StopsAt isDelimiter (moreText vs ++ rest) := by
  cases vs with
  | nil => exact h
  | cons v vs => exact Text.stopsAt_cons rfl _

theorem render_first (v : FactValue) :
    ∃ c cs, v.render.toList = c :: cs ∧ Text.isBlank c = false := by
  cases v with
  | number n =>
    have hne : (Text.showInt64 n).toList ≠ [] := by
      rw [Text.showInt64, Text.toList_toString_int]
      simp
    obtain ⟨c, cs, h⟩ := List.exists_cons_of_ne_nil hne
    refine ⟨c, cs, h, isBlank_of_isNumeralChar (isNumeralChar_of_mem_showInt64 (n := n) ?_)⟩
    simp [h]
  | symbol s => exact ⟨'"', _, toList_render_symbol s, by decide⟩
  | nil => exact ⟨'n', ['i', 'l'], rfl, by decide⟩
  | record vs => exact ⟨'[', _, toList_render_record vs, by decide⟩
  | branch tag args =>
    cases args with
    | nil => exact ⟨'$', _, toList_render_tag tag, by decide⟩
    | cons v vs => exact ⟨'$', _, toList_render_branch tag v vs, by decide⟩

theorem trimStart_render (v : FactValue) (rest : List Char) :
    Text.trimStart (v.render.toList ++ rest) = v.render.toList ++ rest := by
  obtain ⟨c, cs, h, hc⟩ := v.render_first
  rw [h, List.cons_append, Text.trimStart_of_not_isBlank hc]

variable {r : Registry} {text : String} {type : ColumnType} {fuel : Nat} {rest : List Char}

theorem readRecord_nil (read : ReadType) (fields : FieldTypes) (rest : List Char) :
    readRecord text read fields (nil.render.toList ++ rest) = .ok (nil, rest) := by
  have h := eat?_of_toList (show "nil".toList = ['n', 'i', 'l'] from rfl) (by decide) rest
  have hrender : nil.render.toList ++ rest = 'n' :: (['i', 'l'] ++ rest) := rfl
  simp only [readRecord, hrender, h]

theorem readRecord_bracket {read : ReadType} {fields : FieldTypes} (cs : List Char)
    {vs : List FactValue} (h : readFields text read fields (cs ++ ']' :: rest) = .ok (vs, ']' :: rest)) :
    readRecord text read fields ('[' :: (cs ++ ']' :: rest)) = .ok (record vs, rest) := by
  have hnil := eat?_eq_none (show "nil".toList = ['n', 'i', 'l'] from rfl)
    (show Text.isBlank '[' = false by decide) (by decide) (cs ++ ']' :: rest)
  have hopen := expect_char text (show "[".toList = ['['] from rfl) (by decide) (cs ++ ']' :: rest)
  have hclose := expect_char text (show "]".toList = [']'] from rfl) (by decide) rest
  simp only [readRecord, hnil, hopen, ok_bind, h, hclose, pure_eq_ok]

theorem readFields_cons {read : ReadType} (name : String) {fields : FieldTypes} {v : FactValue}
    {vs : List FactValue} {cs cs' : List Char} (hv : read type cs = .ok (v, cs'))
    (hvs : readMoreFields text read fields cs' = .ok (vs, rest)) :
    readFields text read ((name, type) :: fields) cs = .ok (v :: vs, rest) := by
  simp only [readFields, hv, ok_bind, hvs, pure_eq_ok]

theorem readMoreFields_cons {read : ReadType} (name : String) {fields : FieldTypes} {v : FactValue}
    {vs : List FactValue} {cs cs' : List Char} (hv : read type cs = .ok (v, cs'))
    (hvs : readMoreFields text read fields cs' = .ok (vs, rest)) :
    readMoreFields text read ((name, type) :: fields) (',' :: cs) = .ok (v :: vs, rest) := by
  have hcomma := expect_char text (show ",".toList = [','] from rfl) (by decide) cs
  simp only [readMoreFields, hcomma, ok_bind, hv, hvs, pure_eq_ok]

theorem readValue_space (cs : List Char) :
    readValue r text fuel type (' ' :: cs) = readValue r text fuel type cs := by
  cases fuel <;> simp only [readValue, readClassified, Text.trimStart_space]

theorem expect_dollar (cs : List Char) : expect text "$" ('$' :: cs) = .ok cs :=
  expect_char text rfl (by decide) cs

theorem readBranch_bare {read : ReadType} {union tag : String} {branches : List Branch} {b : Branch}
    (hb : branches.find? (·.name == tag) = some b) (hfields : b.fields = [])
    (htag : ∀ c ∈ tag.toList, isTagChar c = true) (he : Text.StopsAt isDelimiter rest) :
    readBranch text read union branches ('$' :: (tag.toList ++ rest)) =
      .ok (branch tag [], rest) := by
  have htake := he.takeWhile_append (fun _ => isTagChar_of_isDelimiter) htag
  have hdrop := he.dropWhile_append (fun _ => isTagChar_of_isDelimiter) htag
  have hname : b.name = tag := by simpa using List.find?_some hb
  simp only [readBranch, expect_dollar, ok_bind, htake, hdrop, String.ofList_toList, hb,
    eat?_open_of_stopsAt he, hfields, List.isEmpty_nil, ↓reduceIte, trimStart_of_stopsAt he, hname, pure_eq_ok]

theorem readBranch_applied {read : ReadType} (union : String) {tag : String} {branches : List Branch}
    {b : Branch} {args : List FactValue} {cs : List Char}
    (hb : branches.find? (·.name == tag) = some b) (htag : ∀ c ∈ tag.toList, isTagChar c = true)
    (hargs : readFields text read b.fields (cs ++ ')' :: rest) = .ok (args, ')' :: rest)) :
    readBranch text read union branches ('$' :: (tag.toList ++ '(' :: (cs ++ ')' :: rest))) =
      .ok (branch tag args, rest) := by
  have hparen : isTagChar '(' = false := by decide
  have htake : (tag.toList ++ '(' :: (cs ++ ')' :: rest)).takeWhile isTagChar = tag.toList := by
    simp [List.takeWhile_append_of_pos htag, hparen]
  have hdrop : (tag.toList ++ '(' :: (cs ++ ')' :: rest)).dropWhile isTagChar =
      '(' :: (cs ++ ')' :: rest) := by
    simp [List.dropWhile_append_of_pos htag, hparen]
  have hopen := eat?_char (show "(".toList = ['('] from rfl) (by decide) (cs ++ ')' :: rest)
  have hclose := expect_char text (show ")".toList = [')'] from rfl) (by decide) rest
  have hname : b.name = tag := by simpa using List.find?_some hb
  simp only [readBranch, expect_dollar, ok_bind, htake, hdrop, String.ofList_toList, hb, hopen,
    hargs, hclose, hname, pure_eq_ok]

theorem readValue_number (n : Int64) (ht : HasType r (.number n) type)
    (he : Text.StopsAt isDelimiter rest) :
    readValue r text (fuel + 1) type ((number n).render.toList ++ rest) = .ok (number n, rest) := by
  simp only [HasType] at ht
  obtain ⟨c, hc, hn⟩ := ht
  have hread := readNumber_render n he
  simp only [readValue, readClassified, trimStart_render, hc, ok_bind]
  rcases hn with rfl | rfl | rfl <;> exact hread

theorem readValue_record {fields : FieldTypes} {vs : List FactValue}
    (hc : r.classify type = .ok .record) (hfields : r.record? type.name = some fields)
    (h : readFields text (readValue r text fuel) fields (valuesText vs ++ ']' :: rest) =
      .ok (vs, ']' :: rest)) :
    readValue r text (fuel + 1) type ((record vs).render.toList ++ rest) = .ok (record vs, rest) := by
  have hread := readRecord_bracket _ h
  simp only [readValue, readClassified, trimStart_render, hc, ok_bind, hfields]
  simpa only [toList_render_record, List.cons_append, List.append_assoc, List.nil_append] using hread

theorem readValue_branch {branches : List Branch} {b : Branch} {tag : String} {v : FactValue}
    {vs : List FactValue} (hc : r.classify type = .ok .union)
    (hbranches : r.union? type.name = some branches)
    (hb : branches.find? (·.name == tag) = some b) (htag : ∀ c ∈ tag.toList, isTagChar c = true)
    (h : readFields text (readValue r text fuel) b.fields (valuesText (v :: vs) ++ ')' :: rest) =
      .ok (v :: vs, ')' :: rest)) :
    readValue r text (fuel + 1) type ((branch tag (v :: vs)).render.toList ++ rest) =
      .ok (branch tag (v :: vs), rest) := by
  have hread := readBranch_applied type.name hb htag h
  simp only [readValue, readClassified, trimStart_render, hc, ok_bind, hbranches]
  simpa only [toList_render_branch, List.cons_append, List.append_assoc, List.nil_append] using hread

mutual

theorem readValue_render : ∀ (v : FactValue) {type : ColumnType} {fuel : Nat} {rest : List Char},
    HasType r v type → v.hasPlainTags = true → v.render.toList.length < fuel →
    Text.StopsAt isDelimiter rest →
    readValue r text fuel type (v.render.toList ++ rest) = .ok (v, rest)
  | v, _, 0, _, _, _, hf, _ => absurd hf (by omega)
  | .number n, _, fuel + 1, rest, ht, _, _, he => readValue_number n ht he
  | .symbol s, _, fuel + 1, rest, ht, _, _, _ => by
    simp only [HasType] at ht
    simp only [readValue, readClassified, trimStart_render, ht, ok_bind, readSymbol_render]
  | .nil, _, fuel + 1, rest, ht, _, _, _ => by
    simp only [HasType] at ht
    obtain ⟨hc, fields, hfields⟩ := ht
    simp only [readValue, readClassified, trimStart_render, hc, ok_bind, hfields, readRecord_nil]
  -- The fuel exceeds the length of the text, and a value inside is shorter than the whole.
  | .record vs, _, fuel + 1, rest, ht, hp, hf, _ => by
    simp only [HasType] at ht
    obtain ⟨hc, fields, hfields, hv⟩ := ht
    simp only [toList_render_record, List.length_cons, List.length_append] at hf
    refine readValue_record hc hfields ?_
    exact readFields_render vs hv hp (by omega) (Text.stopsAt_cons rfl rest)
  | .branch tag [], _, fuel + 1, rest, ht, hp, _, he => by
    simp only [HasType] at ht
    obtain ⟨hc, branches, b, hbranches, hb, hargs⟩ := ht
    have hnone : b.fields = [] := List.eq_nil_of_length_eq_zero hargs.length_eq.symm
    simp only [hasPlainTags, Bool.and_eq_true, List.all_eq_true] at hp
    simp only [readValue, readClassified, trimStart_render, hc, ok_bind, hbranches]
    rw [toList_render_tag]
    exact readBranch_bare hb hnone hp.1 he
  | .branch tag (v :: vs), type, fuel + 1, rest, ht, hp, hf, _ => by
    simp only [HasType] at ht
    obtain ⟨hc, branches, b, hbranches, hb, hargs⟩ := ht
    simp only [hasPlainTags, Bool.and_eq_true, List.all_eq_true] at hp
    simp only [toList_render_branch, List.length_cons, List.length_append] at hf
    refine readValue_branch hc hbranches hb hp.1 ?_
    exact readFields_render (v :: vs) hargs hp.2 (by omega) (Text.stopsAt_cons rfl rest)

theorem readFields_render : ∀ (vs : List FactValue) {fields : FieldTypes} {fuel : Nat}
    {rest : List Char}, HaveTypes r vs fields → allHavePlainTags vs = true →
    (valuesText vs).length < fuel → Text.StopsAt isDelimiter rest →
    readFields text (readValue r text fuel) fields (valuesText vs ++ rest) = .ok (vs, rest)
  | [], [], _, _, _, _, _, _ => rfl
  | [], _ :: _, _, _, ht, _, _, _ => by simp [HaveTypes] at ht
  | _ :: _, [], _, _, ht, _, _, _ => by simp [HaveTypes] at ht
  | v :: vs, (name, type) :: fields, fuel, rest, ht, hp, hf, he => by
    simp only [HaveTypes] at ht
    simp only [allHavePlainTags, Bool.and_eq_true] at hp
    rw [valuesText, List.length_append] at hf
    rw [valuesText, List.append_assoc]
    have hfirst : readValue r text fuel type (v.render.toList ++ (moreText vs ++ rest)) =
        .ok (v, moreText vs ++ rest) :=
      readValue_render v ht.1 hp.1 (by omega) (stopsAt_moreText he)
    exact readFields_cons name hfirst (readMoreFields_render vs ht.2 hp.2 (by omega) he)

theorem readMoreFields_render : ∀ (vs : List FactValue) {fields : FieldTypes} {fuel : Nat}
    {rest : List Char}, HaveTypes r vs fields → allHavePlainTags vs = true →
    (moreText vs).length < fuel → Text.StopsAt isDelimiter rest →
    readMoreFields text (readValue r text fuel) fields (moreText vs ++ rest) = .ok (vs, rest)
  | [], [], _, _, _, _, _, _ => rfl
  | [], _ :: _, _, _, ht, _, _, _ => by simp [HaveTypes] at ht
  | _ :: _, [], _, _, ht, _, _, _ => by simp [HaveTypes] at ht
  | v :: vs, (name, type) :: fields, fuel, rest, ht, hp, hf, he => by
    simp only [HaveTypes] at ht
    simp only [allHavePlainTags, Bool.and_eq_true] at hp
    have htext : moreText (v :: vs) ++ rest =
        ',' :: ' ' :: (v.render.toList ++ (moreText vs ++ rest)) := by simp [moreText]
    have hlen : (moreText (v :: vs)).length = v.render.toList.length + (moreText vs).length + 2 := by
      simp only [moreText, List.flatMap_cons, List.length_append, List.length_cons]
      omega
    have hfirst : readValue r text fuel type (' ' :: (v.render.toList ++ (moreText vs ++ rest))) =
        .ok (v, moreText vs ++ rest) := by
      rw [readValue_space]
      exact readValue_render v ht.1 hp.1 (by omega) (stopsAt_moreText he)
    rw [htext]
    exact readMoreFields_cons name hfirst (readMoreFields_render vs ht.2 hp.2 (by omega) he)

end

/-- The text of a value is read as the value, at every type that it has. -/
theorem parse_render {v : FactValue} (ht : HasType r v type) (hp : v.hasPlainTags = true)
    (hc : r.classify type = .ok .record ∨ r.classify type = .ok .union) :
    parse r type v.render = .ok v := by
  have hread : readValue r v.render (v.render.length + 1) type (v.render.toList ++ []) =
      .ok (v, []) :=
    readValue_render v ht hp (by rw [String.length_toList]; omega) Text.stopsAt_nil
  rw [List.append_nil] at hread
  rcases hc with hc | hc <;> simp only [parse, hc, ok_bind, hread] <;> rfl

end FactValue

end TreeFacts
