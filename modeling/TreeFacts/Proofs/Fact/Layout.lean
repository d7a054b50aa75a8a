import TreeFacts.Proofs.Fact.Splitting

namespace TreeFacts.Table

def openings (s : List Char) : Nat := s.countP isOpening

def closings (s : List Char) : Nat := s.countP isClosing

/-- The brackets of a text, whatever their kind: none is closed before it is opened, and none is
left open. -/
structure Balanced (s : List Char) : Prop where
  closings_le : ∀ n ≤ s.length, closings (s.take n) ≤ openings (s.take n)
  closings_eq : closings s = openings s

/-- A text that can be a field without quotes: it does not begin with one, its brackets are
balanced, and its commas and line breaks stand inside them. -/
structure Bare (s : List Char) : Prop extends Balanced s where
  head?_ne : s.head? ≠ some '"'
  inside : ∀ n (h : n < s.length), isSeparator s[n] = true →
    closings (s.take n) < openings (s.take n)

/-- A row that can be told from others: without quotes, a field has to be bare, and must not be
empty where it is the only one. -/
structure Readable (row : List Field) : Prop where
  ne_nil : row ≠ []
  bare : ∀ f ∈ row, f.quoted = false → Bare f.text.toList
  seen : ∀ f ∈ row, f.quoted = false → f.text ≠ "" ∨ 2 ≤ row.length

instance (s : List Char) : Decidable (Balanced s) :=
  decidable_of_iff ((∀ n ≤ s.length, closings (s.take n) ≤ openings (s.take n)) ∧
    closings s = openings s) ⟨fun h => ⟨h.1, h.2⟩, fun h => ⟨h.1, h.2⟩⟩

instance (s : List Char) : Decidable (Bare s) :=
  decidable_of_iff (Balanced s ∧ s.head? ≠ some '"' ∧ ∀ n (h : n < s.length),
      isSeparator s[n] = true → closings (s.take n) < openings (s.take n))
    ⟨fun h => ⟨h.1, h.2.1, h.2.2⟩, fun h => ⟨h.toBalanced, h.head?_ne, h.inside⟩⟩

instance (row : List Field) : Decidable (Readable row) :=
  decidable_of_iff (row ≠ [] ∧ (∀ f ∈ row, f.quoted = false → Bare f.text.toList) ∧
      ∀ f ∈ row, f.quoted = false → f.text ≠ "" ∨ 2 ≤ row.length)
    ⟨fun h => ⟨h.1, h.2.1, h.2.2⟩, fun h => ⟨h.ne_nil, h.bare, h.seen⟩⟩

/-- A row with what ends its line, and the empty lines behind it. -/
structure Line where
  fields : List Field
  lineEnd : LineEnd
  emptyLines : List LineEnd

/-- A table as it is written. What ends a line may be left out behind the last row. -/
structure Layout where
  emptyLines : List LineEnd
  lines : List Line
  last : Option (List Field)

def emptyText (ends : List LineEnd) : String := String.join (ends.map LineEnd.text)

def Line.text (line : Line) : String :=
  rowText line.fields ++ line.lineEnd.text ++ emptyText line.emptyLines

namespace Layout

def text (l : Layout) : String :=
  emptyText l.emptyLines ++ String.join (l.lines.map Line.text) ++ (l.last.map rowText).getD ""

def rows (l : Layout) : List (List Field) := l.lines.map (·.fields) ++ l.last.toList

/-- What is written. -/
def table (l : Layout) : List (List String) := l.rows.map fun row => row.map (·.text)

end Layout

variable {depth : Nat} {s cs : List Char} {c : Char} {row : List Field}

theorem isClosing_of_isOpening (h : isOpening c = true) : isClosing c = false := by
  have hc : c = '[' ∨ c = '(' := by simpa [isOpening] using h
  rcases hc with rfl | rfl <;> rfl

/-- Where never more brackets are closed than were open, those that are open are the difference. -/
theorem nesting_add_closings
    (h : ∀ n ≤ s.length, closings (s.take n) ≤ depth + openings (s.take n)) :
    nesting depth s + closings s = depth + openings s := by
  induction s generalizing depth with
  | nil => rfl
  | cons c s ih =>
    have hrest (n : Nat) (hn : n ≤ s.length) :
        closings (c :: s.take n) ≤ depth + openings (c :: s.take n) :=
      h (n + 1) (Nat.succ_le_succ hn)
    simp only [closings, openings, List.countP_cons] at ih hrest ⊢
    rw [nesting_cons]
    by_cases ho : isOpening c = true
    · have hc := isClosing_of_isOpening ho
      simp only [ho, hc, Bool.false_eq_true, ↓reduceIte] at hrest ⊢
      rw [nestingAfter_opening ho]
      have hinside : nesting (depth + 1) s + s.countP isClosing =
          depth + 1 + s.countP isOpening := ih fun n hn => by have hn := hrest n hn; omega
      omega
    · simp only [Bool.not_eq_true] at ho
      by_cases hc : isClosing c = true
      · simp only [ho, hc, Bool.false_eq_true, ↓reduceIte] at hrest ⊢
        rw [nestingAfter_closing hc]
        have hopen : 1 ≤ depth := by simpa using hrest 0 (Nat.zero_le _)
        have houtside : nesting (depth - 1) s + s.countP isClosing =
            depth - 1 + s.countP isOpening := ih fun n hn => by have hn := hrest n hn; omega
        omega
      · simp only [Bool.not_eq_true] at hc
        simp only [ho, hc, Bool.false_eq_true, ↓reduceIte] at hrest ⊢
        rw [nestingAfter_other ho hc]
        exact ih fun n hn => hrest n hn

theorem Balanced.nesting_take (h : Balanced s) (depth : Nat) {n : Nat} (hn : n ≤ s.length) :
    nesting depth (s.take n) + closings (s.take n) = depth + openings (s.take n) := by
  refine nesting_add_closings fun m hm => ?_
  have hle : m ≤ n := by
    rw [List.length_take] at hm
    omega
  have hbefore := h.closings_le m (by omega)
  rw [List.take_take, Nat.min_eq_left hle]
  omega

theorem Balanced.nesting_eq (h : Balanced s) : nesting depth s = depth := by
  have hall := h.nesting_take depth (Nat.le_refl s.length)
  have heq := h.closings_eq
  rw [List.take_length] at hall
  omega

/-- A text with balanced brackets is level inside others. -/
theorem Balanced.level (h : Balanced s) : Level (depth + 1) s where
  sheltered := by
    rintro front c back rfl -
    have hlength : front.length ≤ (front ++ c :: back).length := by simp
    have hfront := h.nesting_take (depth + 1) hlength
    have hle := h.closings_le front.length hlength
    rw [List.take_left] at hfront hle
    omega
  nesting_eq := h.nesting_eq

theorem Bare.level (h : Bare s) : Level 0 s where
  sheltered := by
    rintro front c back rfl hc
    have hlength : front.length < (front ++ c :: back).length := by simp
    have hfront := h.nesting_take 0 (Nat.le_of_lt hlength)
    have hlt := h.inside front.length hlength (by simpa using hc)
    rw [List.take_left] at hfront hlt
    omega
  nesting_eq := h.nesting_eq

/-- A readable row is split into its fields by what stands behind it. -/
theorem Readable.splitRows {after : List Char}
    {result : List String → Except ParseFault (List (List String))} (h : Readable row)
    (hafter : EndsRow after result) :
    splitRows .start 0 [] [] ((rowText row).toList ++ after) = result (row.map (·.text)) := by
  obtain ⟨f, fields, rfl⟩ := List.exists_cons_of_ne_nil h.ne_nil
  have hkept : ∀ g ∈ f :: fields, g.Kept := fun g hg hquoted =>
    ⟨(h.bare g hg hquoted).head?_ne, (h.bare g hg hquoted).level⟩
  have hseen : ([] : List String) ≠ [] ∨ fields ≠ [] ∨ f.place ≠ .start := by
    cases hquoted : f.quoted with
    | true =>
      rw [Field.place_of_quoted hquoted]
      exact Or.inr (Or.inr (by decide))
    | false =>
      rcases h.seen f List.mem_cons_self hquoted with htext | hmore
      · have hplace : f.place = .bare := by simp [Field.place, hquoted, htext]
        rw [hplace]
        exact Or.inr (Or.inr (by decide))
      · refine Or.inr (Or.inl ?_)
        rintro rfl
        simp at hmore
  exact splitRows_row hafter hkept hseen

theorem splitRows_emptyText (ends : List LineEnd) (cs : List Char) :
    splitRows .start 0 [] [] ((emptyText ends).toList ++ cs) = splitRows .start 0 [] [] cs := by
  induction ends with
  | nil => rfl
  | cons e ends ih =>
    have htext : (emptyText (e :: ends)).toList = e.text.toList ++ (emptyText ends).toList := by
      simp [emptyText]
    rw [htext, List.append_assoc, splitRows_emptyLine, ih]

theorem splitRows_line {line : Line} (h : Readable line.fields) (cs : List Char) :
    splitRows .start 0 [] [] (line.text.toList ++ cs) =
      (splitRows .start 0 [] [] cs).map (line.fields.map (·.text) :: ·) := by
  rw [Line.text, String.toList_append, String.toList_append, List.append_assoc, List.append_assoc,
    h.splitRows (endsRow_line line.lineEnd _), splitRows_emptyText]

theorem splitRows_last {last : Option (List Field)} (h : ∀ row ∈ last, Readable row) :
    splitRows .start 0 [] [] ((last.map rowText).getD "").toList =
      .ok (last.toList.map fun row => row.map (·.text)) := by
  cases last with
  | none => rfl
  | some row =>
    have hrow := (h row rfl).splitRows endsRow_nil
    rw [List.append_nil] at hrow
    exact hrow

/-- A table is read from each of its layouts: in every field with quotes or without, with either end
of a line, and with empty lines between the rows. -/
theorem parse_layout (l : Layout) (h : ∀ row ∈ l.rows, Readable row) :
    parse l.text = .ok l.table := by
  obtain ⟨emptyLines, lines, last⟩ := l
  have hlast : ∀ row ∈ last, Readable row := fun row hrow =>
    h row (List.mem_append_right _ (Option.mem_toList.mpr hrow))
  have hlines : ∀ line ∈ lines, Readable line.fields := fun line hline =>
    h _ (List.mem_append_left _ (List.mem_map_of_mem hline))
  have htext : (Layout.text ⟨emptyLines, lines, last⟩).toList = (emptyText emptyLines).toList ++
      (lines.flatMap (fun line => line.text.toList) ++ ((last.map rowText).getD "").toList) := by
    simp only [Layout.text, String.toList_append, String.toList_join, List.flatMap_map,
      List.append_assoc]
  rw [parse, htext, splitRows_emptyText]
  clear htext h
  induction lines with
  | nil => exact splitRows_last hlast
  | cons line lines ih =>
    have hrest := ih fun other hother => hlines other (List.mem_cons_of_mem _ hother)
    rw [List.flatMap_cons, List.append_assoc, splitRows_line (hlines line List.mem_cons_self),
      hrest]
    rfl

/-- Empty lines, both ends of lines, a record over two lines, and fields that are empty. -/
def mixedLayout : Layout where
  emptyLines := [.feed]
  lines :=
    [⟨[⟨"4", false⟩, ⟨"[1, [\"2\",\r\nnil]]", false⟩, ⟨"$Var(3, 4)", false⟩], .returnFeed,
        [.feed, .returnFeed]⟩,
      ⟨[⟨"say \"hi\",\n", true⟩, ⟨"", false⟩], .feed, []⟩]
  last := some [⟨"", true⟩]

theorem parse_layout_mixed :
    (∀ row ∈ mixedLayout.rows, Readable row) ∧
      parse ("\n4,[1, [\"2\",\r\nnil]],$Var(3, 4)\r\n\n\r\n\"say \"\"hi\"\",\n\",\n\"\"") =
        .ok [["4", "[1, [\"2\",\r\nnil]]", "$Var(3, 4)"], ["say \"hi\",\n", ""], [""]] := by
  have hreadable : ∀ row ∈ mixedLayout.rows, Readable row := by decide +kernel
  have htext : mixedLayout.text =
      "\n4,[1, [\"2\",\r\nnil]],$Var(3, 4)\r\n\n\r\n\"say \"\"hi\"\",\n\",\n\"\"" := by
    decide +kernel
  refine ⟨hreadable, ?_⟩
  rw [← htext]
  exact parse_layout mixedLayout hreadable

end TreeFacts.Table
