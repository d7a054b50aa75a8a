import TreeFacts.Fact.Table
import TreeFacts.Proofs.Result

namespace TreeFacts.Table

theorem toList_quoteField (s : String) :
    (quoteField s).toList =
      '"' :: (s.toList.flatMap (fun c => if c = '"' then ['"', '"'] else [c]) ++ ['"']) := by
  simp [quoteField]

/-- The characters that end a field or a row, or are left out, where no bracket is open. -/
def isSeparator (c : Char) : Bool := c = ',' || c = '\n' || c = '\r'

def isOpening (c : Char) : Bool := c = '[' || c = '('

def isClosing (c : Char) : Bool := c = ']' || c = ')'

/-- How many brackets are open behind a text. Where none is open, none is closed. -/
def nesting (depth : Nat) (s : List Char) : Nat := s.foldl nestingAfter depth

/-- Every separator of a text stands inside a bracket. -/
def Sheltered (depth : Nat) (s : List Char) : Prop :=
  ∀ front c back, s = front ++ c :: back → isSeparator c = true → nesting depth front ≠ 0

/-- A text that is kept together, and leaves as many brackets open as there were. -/
structure Level (depth : Nat) (s : List Char) : Prop where
  sheltered : Sheltered depth s
  nesting_eq : nesting depth s = depth

variable {depth : Nat} {row : List String} {field cs s t : List Char} {c : Char}

theorem isSeparator_cases (h : isSeparator c = true) : c = ',' ∨ c = '\n' ∨ c = '\r' := by
  simpa [isSeparator, or_assoc] using h

theorem nestingAfter_opening (h : isOpening c = true) : nestingAfter depth c = depth + 1 :=
  if_pos (by simpa [isOpening] using h)

theorem nestingAfter_closing (h : isClosing c = true) : nestingAfter depth c = depth - 1 := by
  have hc : c = ']' ∨ c = ')' := by simpa [isClosing] using h
  rcases hc with rfl | rfl <;> rfl

theorem nestingAfter_other (ho : isOpening c = false) (hc : isClosing c = false) :
    nestingAfter depth c = depth := by
  have ho' : ¬(c = '[' ∨ c = '(') := by simpa [isOpening] using ho
  have hc' : ¬(c = ']' ∨ c = ')') := by simpa [isClosing] using hc
  rw [nestingAfter, if_neg ho', if_neg hc']

theorem nesting_nil : nesting depth [] = depth := rfl

theorem nesting_cons : nesting depth (c :: s) = nesting (nestingAfter depth c) s := rfl

theorem nesting_append : nesting depth (s ++ t) = nesting (nesting depth s) t := List.foldl_append

theorem sheltered_nil : Sheltered depth [] := by
  intro front c back h
  simp at h

theorem sheltered_cons : Sheltered depth (c :: s) ↔
    (isSeparator c = true → depth ≠ 0) ∧ Sheltered (nestingAfter depth c) s := by
  constructor
  · intro h
    refine ⟨h [] c s rfl, fun front d back heq hd => ?_⟩
    exact h (c :: front) d back (by rw [heq, List.cons_append]) hd
  · rintro ⟨hfirst, hrest⟩ front d back heq hd
    cases front with
    | nil =>
      obtain ⟨rfl, -⟩ := List.cons.inj heq
      exact hfirst hd
    | cons e front =>
      obtain ⟨rfl, hs⟩ := List.cons.inj heq
      exact hrest front d back hs hd

theorem sheltered_append :
    Sheltered depth (s ++ t) ↔ Sheltered depth s ∧ Sheltered (nesting depth s) t := by
  induction s generalizing depth with
  | nil => simp [sheltered_nil, nesting_nil]
  | cons c s ih =>
    rw [List.cons_append, sheltered_cons, sheltered_cons, ih, nesting_cons, and_assoc]

instance decidableSheltered : (depth : Nat) → (s : List Char) → Decidable (Sheltered depth s)
  | _, [] => .isTrue sheltered_nil
  | depth, c :: s =>
    have := decidableSheltered (nestingAfter depth c) s
    decidable_of_iff' _ sheltered_cons

namespace Level

theorem nil : Level depth [] := ⟨sheltered_nil, rfl⟩

theorem append (hs : Level depth s) (ht : Level depth t) : Level depth (s ++ t) where
  sheltered := sheltered_append.mpr ⟨hs.sheltered, hs.nesting_eq.symm ▸ ht.sheltered⟩
  nesting_eq := by rw [nesting_append, hs.nesting_eq, ht.nesting_eq]

theorem cons (hsep : isSeparator c = true → depth ≠ 0) (ho : isOpening c = false)
    (hc : isClosing c = false) (h : Level depth s) : Level depth (c :: s) where
  sheltered := by
    rw [sheltered_cons, nestingAfter_other ho hc]
    exact ⟨hsep, h.sheltered⟩
  nesting_eq := by rw [nesting_cons, nestingAfter_other ho hc, h.nesting_eq]

theorem of_forall (h : ∀ c ∈ s, isSeparator c = false ∧ isOpening c = false ∧ isClosing c = false) :
    Level depth s := by
  induction s with
  | nil => exact nil
  | cons c s ih =>
    obtain ⟨hsep, ho, hc⟩ := h c List.mem_cons_self
    have hrest := ih fun d hd => h d (List.mem_cons_of_mem _ hd)
    exact hrest.cons (by simp [hsep]) ho hc

/-- What is level inside brackets may stand in them anywhere. -/
theorem bracketed {d : Char} (ho : isOpening c = true) (hc : isClosing d = true)
    (h : Level (depth + 1) s) : Level depth (c :: (s ++ [d])) := by
  have hsep : isSeparator c = false := by
    have hcases : c = '[' ∨ c = '(' := by simpa [isOpening] using ho
    rcases hcases with rfl | rfl <;> rfl
  have hsep' : isSeparator d = true → depth + 1 ≠ 0 := fun _ => Nat.succ_ne_zero _
  constructor
  · rw [sheltered_cons, nestingAfter_opening ho, sheltered_append, h.nesting_eq, sheltered_cons]
    exact ⟨by simp [hsep], h.sheltered, hsep', sheltered_nil⟩
  · rw [nesting_cons, nestingAfter_opening ho, nesting_append, h.nesting_eq, nesting_cons,
      nestingAfter_closing hc, nesting_nil, Nat.add_sub_cancel]

end Level

section Steps

-- What one character does, by where in a field it stands.
variable (c : Char)

theorem splitRows_quoted_cons : splitRows .quoted depth row field (c :: cs) =
    if c = '"' then splitRows .closing depth row field cs
    else splitRows .quoted depth row (c :: field) cs := rfl

theorem splitRows_closing_cons : splitRows .closing depth row field (c :: cs) =
    if c = '"' then splitRows .quoted depth row ('"' :: field) cs
    else if c = ',' then splitRows .start depth (endField row field) [] cs
    else if c = '\n' then
      (splitRows .start depth [] [] cs).map ((endField row field).reverse :: ·)
    else if c = '\r' then splitRows .closing depth row field cs
    else .error (.afterQuote c) := rfl

theorem splitRows_start_cons : splitRows .start depth row field (c :: cs) =
    if c = '"' then splitRows .quoted depth row field cs
    else if c = ',' ∧ depth = 0 then splitRows .start depth (endField row field) [] cs
    else if c = '\n' ∧ depth = 0 then
      if row.isEmpty then splitRows .start depth row field cs
      else (splitRows .start depth [] [] cs).map ((endField row field).reverse :: ·)
    else if c = '\r' ∧ depth = 0 then splitRows .start depth row field cs
    else splitRows .bare (nestingAfter depth c) row (c :: field) cs := rfl

theorem splitRows_bare_cons : splitRows .bare depth row field (c :: cs) =
    if c = ',' ∧ depth = 0 then splitRows .start depth (endField row field) [] cs
    else if c = '\n' ∧ depth = 0 then
      (splitRows .start depth [] [] cs).map ((endField row field).reverse :: ·)
    else if c = '\r' ∧ depth = 0 then splitRows .bare depth row field cs
    else splitRows .bare (nestingAfter depth c) row (c :: field) cs := rfl

end Steps

section Runs

variable {place : Place} {rows : List (List String)}

/-- Where a text ends, a row ends too, unless none has begun. -/
theorem splitRows_nil_eq_ok (h : splitRows place depth row field [] = .ok rows) :
    rows = [(endField row field).reverse] ∨ place = .start ∧ row = [] ∧ rows = [] := by
  cases place with
  | quoted => cases h
  | bare | closing =>
    cases h
    exact Or.inl rfl
  | start =>
    cases row with
    | nil =>
      cases h
      exact Or.inr ⟨rfl, rfl, rfl⟩
    | cons first row =>
      cases h
      exact Or.inl rfl

/-- What one character can do where the text is split in the end: nothing to the field, add a
character to it, end it, or end the row with it. -/
inductive Advances (place : Place) (depth : Nat) (row : List String) (field cs : List Char) :
    List (List String) → Prop
  | skip {place' : Place} {depth' : Nat} {rows : List (List String)}
    (hplace : place' = .start → place = .start)
    (h : splitRows place' depth' row field cs = .ok rows) : Advances place depth row field cs rows
  | keep {place' : Place} {depth' : Nat} {d : Char} {rows : List (List String)}
    (hplace : place' ≠ .start) (h : splitRows place' depth' row (d :: field) cs = .ok rows) :
    Advances place depth row field cs rows
  | endField {rows : List (List String)}
    (h : splitRows .start depth (endField row field) [] cs = .ok rows) :
    Advances place depth row field cs rows
  | endRow {more : List (List String)} (h : splitRows .start depth [] [] cs = .ok more) :
    Advances place depth row field cs ((Table.endField row field).reverse :: more)

theorem advances_of_line
    (h : (splitRows .start depth [] [] cs).map ((endField row field).reverse :: ·) = .ok rows) :
    Advances place depth row field cs rows := by
  obtain ⟨more, hmore, rfl⟩ := map_eq_ok.mp h
  exact .endRow hmore

theorem advances_quoted (h : splitRows .quoted depth row field (c :: cs) = .ok rows) :
    Advances .quoted depth row field cs rows := by
  rw [splitRows_quoted_cons] at h
  split at h
  next => exact .skip (by simp) h
  next => exact .keep (by simp) h

theorem advances_closing (h : splitRows .closing depth row field (c :: cs) = .ok rows) :
    Advances .closing depth row field cs rows := by
  rw [splitRows_closing_cons] at h
  split at h
  next => exact .keep (by simp) h
  next =>
    split at h
    next => exact .endField h
    next =>
      split at h
      next => exact advances_of_line h
      next =>
        split at h
        next => exact .skip (by simp) h
        next => cases h

theorem advances_start (h : splitRows .start depth row field (c :: cs) = .ok rows) :
    Advances .start depth row field cs rows := by
  rw [splitRows_start_cons] at h
  split at h
  next => exact .skip (by simp) h
  next =>
    split at h
    next => exact .endField h
    next =>
      split at h
      next =>
        split at h
        next => exact .skip (fun _ => rfl) h
        next => exact advances_of_line h
      next =>
        split at h
        next => exact .skip (fun _ => rfl) h
        next => exact .keep (by simp) h

theorem advances_bare (h : splitRows .bare depth row field (c :: cs) = .ok rows) :
    Advances .bare depth row field cs rows := by
  rw [splitRows_bare_cons] at h
  split at h
  next => exact .endField h
  next =>
    split at h
    next => exact advances_of_line h
    next =>
      split at h
      next => exact .skip (by simp) h
      next => exact .keep (by simp) h

theorem splitRows_cons_eq_ok (h : splitRows place depth row field (c :: cs) = .ok rows) :
    Advances place depth row field cs rows := by
  cases place with
  | quoted => exact advances_quoted h
  | closing => exact advances_closing h
  | start => exact advances_start h
  | bare => exact advances_bare h

end Runs

section Fields

theorem not_separating (h : isSeparator c = true → depth ≠ 0) :
    ¬(c = ',' ∧ depth = 0) ∧ ¬(c = '\n' ∧ depth = 0) ∧ ¬(c = '\r' ∧ depth = 0) := by
  refine ⟨?_, ?_, ?_⟩ <;> (rintro ⟨rfl, hdepth⟩; exact h rfl hdepth)

theorem splitRows_bare_kept (h : isSeparator c = true → depth ≠ 0) :
    splitRows .bare depth row field (c :: cs) =
      splitRows .bare (nestingAfter depth c) row (c :: field) cs := by
  obtain ⟨hcomma, hline, hreturn⟩ := not_separating h
  rw [splitRows_bare_cons, if_neg hcomma, if_neg hline, if_neg hreturn]

theorem splitRows_start_kept (hquote : c ≠ '"') (h : isSeparator c = true → depth ≠ 0) :
    splitRows .start depth row field (c :: cs) =
      splitRows .bare (nestingAfter depth c) row (c :: field) cs := by
  obtain ⟨hcomma, hline, hreturn⟩ := not_separating h
  rw [splitRows_start_cons, if_neg hquote, if_neg hcomma, if_neg hline, if_neg hreturn]

/-- In a bare field, all characters up to an open separator belong to the field. -/
theorem splitRows_sheltered (h : Sheltered depth s) :
    splitRows .bare depth row field (s ++ cs) =
      splitRows .bare (nesting depth s) row (s.reverse ++ field) cs := by
  induction s generalizing depth field with
  | nil => rfl
  | cons c s ih =>
    obtain ⟨hc, hs⟩ := sheltered_cons.mp h
    rw [List.cons_append, splitRows_bare_kept hc, ih hs, nesting_cons, List.reverse_cons,
      List.append_assoc]
    rfl

theorem splitRows_start_sheltered (hs : s ≠ []) (hquote : s.head? ≠ some '"')
    (h : Sheltered depth s) :
    splitRows .start depth row [] (s ++ cs) =
      splitRows .bare (nesting depth s) row s.reverse cs := by
  obtain ⟨c, s, rfl⟩ := List.exists_cons_of_ne_nil hs
  obtain ⟨hc, hrest⟩ := sheltered_cons.mp h
  have hne : c ≠ '"' := by simpa using hquote
  rw [List.cons_append, splitRows_start_kept hne hc, splitRows_sheltered hrest, nesting_cons,
    List.reverse_cons]

/-- Inside quotes, everything up to the closing quote belongs to the field. -/
theorem splitRows_quoted (s : List Char) (field cs : List Char) :
    splitRows .quoted depth row field
        (s.flatMap (fun c => if c = '"' then ['"', '"'] else [c]) ++ '"' :: cs) =
      splitRows .closing depth row (s.reverse ++ field) cs := by
  induction s generalizing field with
  | nil => simp [splitRows_quoted_cons]
  | cons c s ih =>
    rw [List.flatMap_cons, List.append_assoc, List.reverse_cons, List.append_assoc]
    -- A quote is written twice, any other character once.
    by_cases hc : c = '"'
    · subst hc
      have h := ih ('"' :: field)
      simpa [splitRows_quoted_cons, splitRows_closing_cons] using h
    · have h := ih (c :: field)
      simpa [splitRows_quoted_cons, hc] using h

theorem splitRows_quoteField (s : String) :
    splitRows .start 0 row [] ((quoteField s).toList ++ cs) =
      splitRows .closing 0 row s.toList.reverse cs := by
  rw [toList_quoteField, List.cons_append, List.append_assoc, splitRows_start_cons]
  simp only [↓reduceIte, List.cons_append, List.nil_append]
  rw [splitRows_quoted, List.append_nil]

end Fields

/-- A field as it is written: in quotes, or as it is. -/
structure Field where
  text : String
  quoted : Bool
  deriving DecidableEq, Repr

namespace Field

def written (f : Field) : String := if f.quoted then quoteField f.text else f.text

/-- A field that can be told from its neighbours: without quotes its text must not begin with one,
and has to be kept together by its brackets. -/
def Kept (f : Field) : Prop :=
  f.quoted = false → f.text.toList.head? ≠ some '"' ∧ Level 0 f.text.toList

/-- Where a scan stands behind a field. -/
def place (f : Field) : Place :=
  if f.quoted then .closing else if f.text = "" then .start else .bare

theorem place_of_quoted {f : Field} (h : f.quoted = true) : f.place = .closing := if_pos h

theorem place_ne_quoted (f : Field) : f.place ≠ .quoted := by
  unfold place
  split
  next => decide
  next => split <;> decide

theorem splitRows_written {f : Field} (h : f.Kept) :
    splitRows .start 0 row [] (f.written.toList ++ cs) =
      splitRows f.place 0 row f.text.toList.reverse cs := by
  obtain ⟨text, quoted⟩ := f
  cases quoted with
  | true => exact splitRows_quoteField text
  | false =>
    obtain ⟨hquote, hlevel⟩ := h rfl
    by_cases htext : text = ""
    · subst htext
      rfl
    · have hne : text.toList ≠ [] := by simpa using htext
      have hplace : place ⟨text, false⟩ = .bare := if_neg htext
      have hscan : splitRows .start 0 row [] (text.toList ++ cs) =
          splitRows .bare (nesting 0 text.toList) row text.toList.reverse cs :=
        splitRows_start_sheltered hne hquote hlevel.sheltered
      rw [hlevel.nesting_eq] at hscan
      rw [hplace]
      exact hscan

end Field

/-- The fields of a row with commas between them. -/
def rowText (fields : List Field) : String := ",".intercalate (fields.map Field.written)

/-- What ends a line. -/
inductive LineEnd where
  | feed
  | returnFeed
  deriving DecidableEq, Repr

def LineEnd.text : LineEnd → String
  | .feed => "\n"
  | .returnFeed => "\r\n"

/-- Behind any field of a row, a text ends the row and gives a result by its fields. -/
def EndsRow (after : List Char)
    (result : List String → Except ParseFault (List (List String))) : Prop :=
  ∀ place row field, place ≠ .quoted → (place = .start → row ≠ []) →
    splitRows place 0 row field after = result (endField row field).reverse

section Rows

variable {f : Field} {fields : List Field} {place : Place} {after : List Char}
  {result : List String → Except ParseFault (List (List String))}

theorem splitRows_comma (hplace : place ≠ .quoted) :
    splitRows place 0 row field (',' :: cs) = splitRows .start 0 (endField row field) [] cs := by
  cases place with
  | quoted => exact absurd rfl hplace
  | start | bare | closing => rfl

theorem splitRows_feed (hplace : place ≠ .quoted) (hrow : place = .start → row ≠ []) :
    splitRows place 0 row field ('\n' :: cs) =
      (splitRows .start 0 [] [] cs).map ((endField row field).reverse :: ·) := by
  cases place with
  | quoted => exact absurd rfl hplace
  | start =>
    have hne : row.isEmpty = false := by simpa using hrow rfl
    rw [splitRows_start_cons]
    simp [hne]
  | bare | closing => rfl

theorem splitRows_return (hplace : place ≠ .quoted) :
    splitRows place 0 row field ('\r' :: cs) = splitRows place 0 row field cs := by
  cases place with
  | quoted => exact absurd rfl hplace
  | start | bare | closing => rfl

theorem endsRow_nil : EndsRow [] fun row => .ok [row] := by
  intro place row field hplace hrow
  cases place with
  | quoted => exact absurd rfl hplace
  | start =>
    have hne : row.isEmpty = false := by simpa using hrow rfl
    simp [splitRows, hne]
  | bare | closing => rfl

theorem endsRow_line (e : LineEnd) (cs : List Char) :
    EndsRow (e.text.toList ++ cs) fun row => (splitRows .start 0 [] [] cs).map (row :: ·) := by
  intro place row field hplace hrow
  cases e with
  | feed => exact splitRows_feed hplace hrow
  | returnFeed => exact (splitRows_return hplace).trans (splitRows_feed hplace hrow)

theorem splitRows_emptyLine (e : LineEnd) (cs : List Char) :
    splitRows .start 0 [] [] (e.text.toList ++ cs) = splitRows .start 0 [] [] cs := by
  cases e <;> rfl

/-- A row is split into its fields, unless it is one empty field without quotes. -/
theorem splitRows_row (hafter : EndsRow after result) (hkept : ∀ g ∈ f :: fields, g.Kept)
    (hseen : row ≠ [] ∨ fields ≠ [] ∨ f.place ≠ .start) :
    splitRows .start 0 row [] ((rowText (f :: fields)).toList ++ after) =
      result (row.reverse ++ (f :: fields).map (·.text)) := by
  induction fields generalizing f row with
  | nil =>
    have hrow : f.place = .start → row ≠ [] := by
      intro hplace
      simpa [hplace] using hseen
    rw [rowText, List.map_singleton, String.intercalate_singleton,
      Field.splitRows_written (hkept f List.mem_cons_self),
      hafter _ _ _ f.place_ne_quoted hrow]
    simp [endField]
  | cons g fields ih =>
    have hrest : splitRows .start 0 (f.text :: row) [] ((rowText (g :: fields)).toList ++ after) =
        result ((f.text :: row).reverse ++ (g :: fields).map (·.text)) :=
      ih (fun h hh => hkept h (List.mem_cons_of_mem _ hh)) (Or.inl (List.cons_ne_nil _ _))
    have htext : (rowText (f :: g :: fields)).toList ++ after =
        f.written.toList ++ ',' :: ((rowText (g :: fields)).toList ++ after) := by
      simp [rowText, String.intercalate_cons_cons]
    rw [htext, Field.splitRows_written (hkept f List.mem_cons_self),
      splitRows_comma f.place_ne_quoted]
    simpa [endField] using hrest

end Rows

end TreeFacts.Table
