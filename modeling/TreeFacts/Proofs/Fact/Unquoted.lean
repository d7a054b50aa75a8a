import TreeFacts.Proofs.Fact.Layout
import TreeFacts.Proofs.Fact.Table

namespace TreeFacts

namespace Table

/-- Texts that stay whole as the fields of a line without quotes: in each, every separator stands
inside a bracket, and only the last may leave one open. -/
structure Whole (texts : List String) : Prop where
  sheltered : ∀ t ∈ texts, Sheltered 0 t.toList
  closed : ∀ t ∈ texts.dropLast, nesting 0 t.toList = 0

instance (texts : List String) : Decidable (Whole texts) :=
  decidable_of_iff ((∀ t ∈ texts, Sheltered 0 t.toList) ∧
    ∀ t ∈ texts.dropLast, nesting 0 t.toList = 0) ⟨fun h => ⟨h.1, h.2⟩, fun h => ⟨h.1, h.2⟩⟩

/-- A text whose first character opens neither quotes nor another field. -/
def Begins (s : List Char) : Prop := ∃ c cs, s = c :: cs ∧ c ≠ '"' ∧ isSeparator c = false

/-- The first of the rows begins with the fields of `row` and one that begins with `field` and goes
on with `more`. -/
def Continues (row : List String) (field : List Char) (rows : List (List String))
    (more : List Char) : Prop :=
  ∃ tail rest, rows = (row.reverse ++ String.ofList (field.reverse ++ more) :: tail) :: rest

variable {place : Place} {depth : Nat} {row tail texts : List String}
  {field cs s more after : List Char} {rows rest : List (List String)} {c : Char} {t : String}

theorem Begins.ne_nil (h : Begins s) : s ≠ [] := by
  obtain ⟨c, cs, rfl, -, -⟩ := h
  exact List.cons_ne_nil _ _

theorem Begins.head?_ne (h : Begins s) : s.head? ≠ some '"' := by
  obtain ⟨c, cs, rfl, hc, -⟩ := h
  simpa using hc

section Continuing

theorem continues_end (row : List String) (field : List Char) (rest : List (List String)) :
    Continues row field ((endField row field).reverse :: rest) [] :=
  ⟨[], rest, by simp [endField]⟩

theorem Continues.of_endField (h : Continues (endField row field) [] rows more) :
    Continues row field rows [] := by
  obtain ⟨tail, rest, rfl⟩ := h
  refine ⟨String.ofList more :: tail, rest, ?_⟩
  simp [endField]

theorem Continues.of_cons (h : Continues row (c :: field) rows more) :
    Continues row field rows (c :: more) := by
  obtain ⟨tail, rest, rfl⟩ := h
  exact ⟨tail, rest, by simp⟩

theorem Continues.toList_eq
    (h : Continues row field ((row.reverse ++ t :: tail) :: rest) more) :
    t.toList = field.reverse ++ more := by
  obtain ⟨tail', rest', heq⟩ := h
  have hrow := List.append_cancel_left (List.cons.inj heq).1
  rw [(List.cons.inj hrow).1, String.toList_ofList]

/-- What was read of a row and a field is kept. -/
theorem exists_continues (h : splitRows place depth row field cs = .ok rows)
    (hopen : place = .start → row ≠ []) : ∃ more, Continues row field rows more := by
  induction cs generalizing place depth row field rows with
  | nil =>
    rcases splitRows_nil_eq_ok h with rfl | ⟨hplace, hrow, -⟩
    · exact ⟨[], continues_end row field []⟩
    · exact absurd hrow (hopen hplace)
  | cons c cs ih =>
    cases splitRows_cons_eq_ok h with
    | skip hplace h => exact ih h fun hstart => hopen (hplace hstart)
    | @keep _ _ d _ hplace h =>
      obtain ⟨more, hmore⟩ := ih h fun hstart => absurd hstart hplace
      exact ⟨d :: more, hmore.of_cons⟩
    | endField h =>
      obtain ⟨more, hmore⟩ := ih h fun _ => List.cons_ne_nil _ _
      exact ⟨[], hmore.of_endField⟩
    | @endRow rest _ => exact ⟨[], continues_end row field rest⟩

/-- Outside all brackets, no separator is read into a field without quotes. -/
theorem exists_continues_bare (h : splitRows .bare 0 row field cs = .ok rows) :
    ∃ more, Continues row field rows more ∧ ∀ c ∈ more.head?, isSeparator c = false := by
  induction cs with
  | nil =>
    cases h
    exact ⟨[], continues_end row field [], by simp⟩
  | cons c cs ih =>
    cases hc : isSeparator c with
    | false =>
      rw [splitRows_bare_kept (by simp [hc])] at h
      obtain ⟨more, hmore⟩ := exists_continues h (by simp)
      exact ⟨c :: more, hmore.of_cons, by simpa using hc⟩
    | true =>
      have hplace : Place.bare ≠ .quoted := by decide
      rcases isSeparator_cases hc with rfl | rfl | rfl
      · rw [splitRows_comma hplace] at h
        obtain ⟨more, hmore⟩ := exists_continues h fun _ => List.cons_ne_nil _ _
        exact ⟨[], hmore.of_endField, by simp⟩
      · rw [splitRows_feed hplace (by simp)] at h
        obtain ⟨rest, -, rfl⟩ := map_eq_ok.mp h
        exact ⟨[], continues_end row field rest, by simp⟩
      · rw [splitRows_return hplace] at h
        exact ih h

end Continuing

section Texts

theorem exists_first_separator (h : ¬Sheltered depth s) :
    ∃ front c back, s = front ++ c :: back ∧ Sheltered depth front ∧ isSeparator c = true ∧
      nesting depth front = 0 := by
  induction s generalizing depth with
  | nil => exact absurd sheltered_nil h
  | cons c s ih =>
    by_cases hc : isSeparator c = true → depth ≠ 0
    · have hrest : ¬Sheltered (nestingAfter depth c) s := fun hs => h (sheltered_cons.mpr ⟨hc, hs⟩)
      obtain ⟨front, d, back, rfl, hfront, hd, hopen⟩ := ih hrest
      exact ⟨c :: front, d, back, rfl, sheltered_cons.mpr ⟨hc, hfront⟩, hd, hopen⟩
    · have hc' : isSeparator c = true ∧ depth = 0 := by simpa using hc
      exact ⟨[], c, s, rfl, sheltered_nil, hc'.1, hc'.2⟩

/-- A text can only be found again as a field if its separators stand inside brackets. -/
theorem sheltered_of_splitRows (ht : Begins t.toList)
    (h : splitRows .start 0 row [] (t.toList ++ after) =
      .ok ((row.reverse ++ t :: tail) :: rest)) : Sheltered 0 t.toList := by
  by_contra hnot
  obtain ⟨front, c, back, heq, hfront, hc, hopen⟩ := exists_first_separator hnot
  obtain ⟨d, ds, hd, hquote, hother⟩ := ht
  have hne : front ≠ [] := by
    rintro rfl
    obtain ⟨rfl, -⟩ := List.cons.inj (hd.symm.trans heq)
    rw [hc] at hother
    cases hother
  have hhead : front.head? ≠ some '"' := by
    obtain ⟨e, es, rfl⟩ := List.exists_cons_of_ne_nil hne
    obtain ⟨rfl, -⟩ := List.cons.inj (hd.symm.trans heq)
    simpa using hquote
  rw [heq, List.append_assoc, splitRows_start_sheltered hne hhead hfront, hopen] at h
  obtain ⟨more, hmore, hfirst⟩ := exists_continues_bare h
  have htext := hmore.toList_eq
  rw [heq, List.reverse_reverse] at htext
  rw [← List.append_cancel_left htext] at hfirst
  have hc' := hfirst c rfl
  rw [hc] at hc'
  cases hc'

/-- If a comma ends a text as a field, it leaves no bracket open. -/
theorem nesting_of_splitRows (ht : Begins t.toList) (hkept : Sheltered 0 t.toList)
    (h : splitRows .start 0 row [] (t.toList ++ ',' :: cs) =
      .ok ((row.reverse ++ t :: tail) :: rest)) : nesting 0 t.toList = 0 := by
  by_contra hopen
  rw [splitRows_start_sheltered ht.ne_nil ht.head?_ne hkept,
    splitRows_bare_kept fun _ => hopen] at h
  obtain ⟨more, hmore⟩ := exists_continues h (by simp)
  have hlength := congrArg List.length hmore.toList_eq
  simp only [List.length_append, List.length_reverse, List.length_cons] at hlength
  omega

theorem whole_singleton : Whole [t] ↔ Sheltered 0 t.toList :=
  ⟨fun h => h.sheltered t List.mem_cons_self, fun h => ⟨by simpa using h, by simp⟩⟩

theorem whole_cons_cons {u : String} : Whole (t :: u :: texts) ↔
    Sheltered 0 t.toList ∧ nesting 0 t.toList = 0 ∧ Whole (u :: texts) := by
  constructor
  · rintro ⟨hkept, hclosed⟩
    rw [List.dropLast_cons_cons, List.forall_mem_cons] at hclosed
    rw [List.forall_mem_cons] at hkept
    exact ⟨hkept.1, hclosed.1, hkept.2, hclosed.2⟩
  · rintro ⟨hkept, hclosed, hrest⟩
    refine ⟨List.forall_mem_cons.mpr ⟨hkept, hrest.sheltered⟩, ?_⟩
    rw [List.dropLast_cons_cons, List.forall_mem_cons]
    exact ⟨hclosed, hrest.closed⟩

/-- Texts without quotes are the fields of their line just when they stay whole. -/
theorem splitRows_texts_iff (ht : ∀ u ∈ t :: texts, Begins u.toList) :
    splitRows .start 0 row [] (",".intercalate (t :: texts)).toList =
        .ok [row.reverse ++ t :: texts] ↔ Whole (t :: texts) := by
  induction texts generalizing t row with
  | nil =>
    have hfirst := ht t List.mem_cons_self
    rw [whole_singleton, String.intercalate_singleton, ← List.append_nil t.toList]
    constructor
    · intro h
      have hkept := sheltered_of_splitRows hfirst h
      rwa [List.append_nil]
    · intro hkept
      rw [List.append_nil] at hkept
      rw [splitRows_start_sheltered hfirst.ne_nil hfirst.head?_ne hkept]
      simp [splitRows, endField]
  | cons u texts ih =>
    have hfirst := ht t List.mem_cons_self
    have hrest : ∀ v ∈ u :: texts, Begins v.toList := fun v hv => ht v (List.mem_cons_of_mem _ hv)
    have htext : (",".intercalate (t :: u :: texts)).toList =
        t.toList ++ ',' :: (",".intercalate (u :: texts)).toList := by
      rw [String.intercalate_cons_cons, String.toList_append, String.toList_append,
        List.append_assoc]
      rfl
    have hnext (hkept : Sheltered 0 t.toList) (hclosed : nesting 0 t.toList = 0) :
        splitRows .start 0 row [] (t.toList ++ ',' :: (",".intercalate (u :: texts)).toList) =
          splitRows .start 0 (t :: row) [] (",".intercalate (u :: texts)).toList := by
      rw [splitRows_start_sheltered hfirst.ne_nil hfirst.head?_ne hkept, hclosed,
        splitRows_comma (by decide), endField, List.reverse_reverse, String.ofList_toList]
    have hrow : row.reverse ++ t :: u :: texts = (t :: row).reverse ++ u :: texts := by simp
    rw [whole_cons_cons, htext]
    constructor
    · intro h
      have hkept := sheltered_of_splitRows hfirst h
      have hclosed := nesting_of_splitRows hfirst hkept h
      rw [hnext hkept hclosed, hrow] at h
      exact ⟨hkept, hclosed, (ih hrest).mp h⟩
    · rintro ⟨hkept, hclosed, hwhole⟩
      rw [hnext hkept hclosed, hrow]
      exact (ih hrest).mpr hwhole

end Texts

end Table

namespace FactValue

open Table

mutual

/-- The symbols inside a value. -/
def symbols : FactValue → List String
  | .symbol s => [s]
  | .record fields => symbolsIn fields
  | .branch _ args => symbolsIn args
  | .number _ | .nil => []

def symbolsIn : List FactValue → List String
  | [] => []
  | v :: rest => v.symbols ++ symbolsIn rest

end

variable {depth : Nat} {s : List Char}

theorem nesting_escape : nesting depth (s.flatMap escapeSymbol) = nesting depth s := by
  induction s generalizing depth with
  | nil => rfl
  | cons c s ih =>
    rw [List.flatMap_cons, nesting_append, ih, nesting_cons]
    by_cases hc : c = '"' ∨ c = '\\'
    · rw [escapeSymbol, if_pos hc]
      rfl
    · rw [escapeSymbol, if_neg hc]
      rfl

theorem sheltered_escape : Sheltered depth (s.flatMap escapeSymbol) ↔ Sheltered depth s := by
  induction s generalizing depth with
  | nil => rfl
  | cons c s ih =>
    have hback : isSeparator '\\' = false := rfl
    have hsame : nestingAfter depth '\\' = depth := rfl
    rw [List.flatMap_cons, sheltered_append, sheltered_cons, escapeSymbol]
    split
    next =>
      simp only [sheltered_cons, nesting_cons, nesting_nil, sheltered_nil, ih, hback, hsame,
        Bool.false_eq_true, false_implies, true_and, and_true]
    next => simp only [sheltered_cons, nesting_cons, nesting_nil, sheltered_nil, ih, and_true]

theorem level_escape (h : Level depth s) : Level depth (s.flatMap escapeSymbol) where
  sheltered := sheltered_escape.mpr h.sheltered
  nesting_eq := nesting_escape.trans h.nesting_eq

theorem level_of_isTagChar (h : ∀ c ∈ s, isTagChar c = true) : Level depth s := by
  refine Level.of_forall fun c hc => ?_
  have htag := h c hc
  refine ⟨?_, ?_, ?_⟩ <;> (rw [Bool.eq_false_iff]; intro hother)
  · rcases isSeparator_cases hother with rfl | rfl | rfl <;> exact absurd htag (by decide)
  · have hcases : c = '[' ∨ c = '(' := by simpa [isOpening] using hother
    rcases hcases with rfl | rfl <;> exact absurd htag (by decide)
  · have hcases : c = ']' ∨ c = ')' := by simpa [isClosing] using hother
    rcases hcases with rfl | rfl <;> exact absurd htag (by decide)

mutual

/-- The brackets of a value are balanced where those of the symbols in it are. A symbol itself has
to stand inside others. -/
theorem level_render : ∀ (v : FactValue) {depth : Nat}, v.hasPlainTags = true →
    (∀ s ∈ v.symbols, Balanced s.toList) → (v.symbol? = none ∨ depth ≠ 0) →
    Level depth v.render.toList
  | .number _, _, _, _, _ => level_of_isNumeralChar fun _ hc => isNumeralChar_of_mem_showInt64 hc
  | .symbol s, depth, _, hs, hdepth => by
    obtain ⟨outer, rfl⟩ := Nat.exists_eq_succ_of_ne_zero (hdepth.resolve_left (by simp [symbol?]))
    have hquote : Level (outer + 1) ['"'] := Level.nil.cons nofun rfl rfl
    have hinner : Level (outer + 1) s.toList := (hs s (by simp [symbols])).level
    rw [toList_render_symbol]
    exact hquote.append ((level_escape hinner).append hquote)
  | .nil, _, _, _, _ => by
    have htext : nil.render.toList = ['n', 'i', 'l'] := rfl
    rw [htext]
    exact Level.of_forall (by simp [isSeparator, isOpening, isClosing])
  | .record vs, _, hp, hs, _ => by
    rw [toList_render_record]
    exact (level_valuesText vs hp hs).bracketed rfl rfl
  | .branch tag [], depth, hp, _, _ => by
    simp only [hasPlainTags, Bool.and_eq_true, List.all_eq_true] at hp
    have hdollar : Level depth ['$'] := Level.nil.cons nofun rfl rfl
    rw [toList_render_tag]
    exact hdollar.append (level_of_isTagChar hp.1)
  | .branch tag (v :: vs), depth, hp, hs, _ => by
    simp only [hasPlainTags, Bool.and_eq_true, List.all_eq_true] at hp
    have hdollar : Level depth ['$'] := Level.nil.cons nofun rfl rfl
    have hargs : Level depth ('(' :: (valuesText (v :: vs) ++ [')'])) :=
      (level_valuesText (v :: vs) hp.2 hs).bracketed rfl rfl
    rw [toList_render_branch]
    exact hdollar.append ((level_of_isTagChar hp.1).append hargs)

theorem level_valuesText : ∀ (vs : List FactValue) {depth : Nat}, allHavePlainTags vs = true →
    (∀ s ∈ symbolsIn vs, Balanced s.toList) → Level (depth + 1) (valuesText vs)
  | [], _, _, _ => Level.nil
  | v :: vs, _, hp, hs => by
    simp only [allHavePlainTags, Bool.and_eq_true] at hp
    simp only [symbolsIn, List.forall_mem_append] at hs
    exact (level_render v hp.1 hs.1 (Or.inr (Nat.succ_ne_zero _))).append
      (level_moreText vs hp.2 hs.2)

theorem level_moreText : ∀ (vs : List FactValue) {depth : Nat}, allHavePlainTags vs = true →
    (∀ s ∈ symbolsIn vs, Balanced s.toList) → Level (depth + 1) (moreText vs)
  | [], _, _, _ => Level.nil
  | v :: vs, depth, hp, hs => by
    simp only [allHavePlainTags, Bool.and_eq_true] at hp
    simp only [symbolsIn, List.forall_mem_append] at hs
    have hspace : Level (depth + 1) [' '] := Level.nil.cons nofun rfl rfl
    have hcomma : Level (depth + 1) [',', ' '] :=
      hspace.cons (fun _ => Nat.succ_ne_zero _) rfl rfl
    have hfirst : Level (depth + 1) v.render.toList :=
      level_render v hp.1 hs.1 (Or.inr (Nat.succ_ne_zero _))
    have htext : moreText (v :: vs) = [',', ' '] ++ (v.render.toList ++ moreText vs) := by
      simp [moreText]
    rw [htext]
    exact hcomma.append (hfirst.append (level_moreText vs hp.2 hs.2))

end

theorem render_begins {v : FactValue} (h : v.symbol? = none) : Begins v.render.toList := by
  cases v with
  | number n =>
    obtain ⟨c, cs, hcs, hc⟩ := head?_showInt64 n
    refine ⟨c, cs, hcs, ?_, ?_⟩
    · rintro rfl
      exact absurd hc (by decide)
    · rw [Bool.eq_false_iff]
      intro hsep
      rcases isSeparator_cases hsep with rfl | rfl | rfl <;> exact absurd hc (by decide)
  | symbol s => cases h
  | nil => exact ⟨'n', ['i', 'l'], rfl, by decide, rfl⟩
  | record vs => exact ⟨'[', _, toList_render_record vs, by decide, rfl⟩
  | branch tag args =>
    cases args with
    | nil => exact ⟨'$', _, toList_render_tag tag, by decide, rfl⟩
    | cons v vs => exact ⟨'$', _, toList_render_branch tag v vs, by decide, rfl⟩

/-- Numbers, records and branches that are written without quotes are the fields of their line just
when their texts stay whole. They do where the brackets of all symbols in them are balanced. -/
theorem parse_unquoted (values : List FactValue) (hne : values ≠ [])
    (hvalues : ∀ v ∈ values, v.symbol? = none) :
    (Table.parse (",".intercalate (values.map render)) = .ok [values.map render] ↔
      Whole (values.map render)) ∧
    ((∀ v ∈ values, v.hasPlainTags = true ∧ ∀ s ∈ v.symbols, Balanced s.toList) →
      Table.parse (",".intercalate (values.map render)) = .ok [values.map render]) := by
  have hwhole : Table.parse (",".intercalate (values.map render)) = .ok [values.map render] ↔
      Whole (values.map render) := by
    obtain ⟨v, rest, rfl⟩ := List.exists_cons_of_ne_nil hne
    have hbegins : ∀ t ∈ (v :: rest).map render, Begins t.toList := by
      intro t ht
      obtain ⟨w, hw, rfl⟩ := List.mem_map.mp ht
      exact render_begins (hvalues w hw)
    have hline : Table.parse (",".intercalate ((v :: rest).map render)) =
        .ok [[].reverse ++ (v :: rest).map render] ↔ Whole ((v :: rest).map render) :=
      splitRows_texts_iff hbegins
    exact hline
  refine ⟨hwhole, fun hbalanced => hwhole.mpr ?_⟩
  have hlevel : ∀ t ∈ values.map render, Level 0 t.toList := by
    intro t ht
    obtain ⟨v, hv, rfl⟩ := List.mem_map.mp ht
    obtain ⟨hplain, hsymbols⟩ := hbalanced v hv
    exact level_render v hplain hsymbols (Or.inl (hvalues v hv))
  exact ⟨fun t ht => (hlevel t ht).sheltered,
    fun t ht => (hlevel t (List.dropLast_subset _ ht)).nesting_eq⟩

/-- A number, a list of texts with brackets, commas, quotes and line breaks, and a branch. -/
def unquotedValues : List FactValue :=
  [.number (-4), .record [.symbol "f(x, \"[y]\\\"),", .record [.symbol "\r\n", .nil]],
    .branch "Var" [.number 3, .symbol "a,b"]]

theorem parse_unquoted_nested :
    (∀ v ∈ unquotedValues, v.hasPlainTags = true ∧ ∀ s ∈ v.symbols, Balanced s.toList) ∧
      Table.parse (",".intercalate (unquotedValues.map render)) =
        .ok [unquotedValues.map render] := by
  have hbalanced : ∀ v ∈ unquotedValues,
      v.hasPlainTags = true ∧ ∀ s ∈ v.symbols, Balanced s.toList := by decide +kernel
  exact ⟨hbalanced, (parse_unquoted unquotedValues (by decide) (by decide)).2 hbalanced⟩

/-- A bracket inside a symbol closes the record around it, so that the next comma ends the field. -/
theorem parse_unquoted_bracket :
    ¬Whole [(record [.symbol "]", .number 1]).render] ∧
      (record [.symbol "]", .number 1]).render = "[\"]\", 1]" ∧
      Table.parse (record [.symbol "]", .number 1]).render = .ok [["[\"]\"", " 1]"]] :=
  ⟨by decide +kernel, by decide +kernel, by decide +kernel⟩

end FactValue

end TreeFacts
