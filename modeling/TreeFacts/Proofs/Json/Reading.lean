import TreeFacts.Proofs.Json.Text

namespace TreeFacts.Json

mutual

/-- How deep arrays and objects nest. -/
def nesting : Json → Nat
  | arr items => nestingOfItems items + 1
  | obj members => nestingOfMembers members + 1
  | null | bool _ | int _ | real | str _ => 0

def nestingOfItems : List Json → Nat
  | [] => 0
  | item :: items => max item.nesting (nestingOfItems items)

def nestingOfMembers : List (String × Json) → Nat
  | [] => 0
  | (_, value) :: members => max value.nesting (nestingOfMembers members)

end

/-- Strings with commas between them. -/
def joined (texts : List String) : List Char := (",".intercalate texts).toList

theorem joined_singleton (s : String) : joined [s] = s.toList := by simp [joined]

theorem joined_cons_cons (s t : String) (texts : List String) :
    joined (s :: t :: texts) = s.toList ++ ',' :: joined (t :: texts) := by
  simp only [joined, String.intercalate_cons_cons, String.toList_append, List.append_assoc]
  rfl

theorem toList_renderString (s : String) :
    (renderString s).toList = '"' :: (s.toList.flatMap escape ++ ['"']) := by
  simp [renderString]

theorem toList_render_str (s : String) :
    (str s).render.toList = '"' :: (s.toList.flatMap escape ++ ['"']) := by
  rw [render, toList_renderString]

theorem toList_render_arr (items : List Json) :
    (arr items).render.toList = '[' :: (joined (renderItems items) ++ [']']) := by
  simp only [render, String.toList_append]
  rfl

theorem toList_render_obj (members : List (String × Json)) :
    (obj members).render.toList = '\x7b' :: (joined (renderMembers members) ++ ['\x7d']) := by
  simp only [render, String.toList_append]
  rfl

theorem toString_first (n : Int) :
    ∃ c cs, (toString n).toList = c :: cs ∧ (c = '-' ∨ c.isDigit = true) := by
  obtain ⟨c, cs, hc⟩ :=
    List.exists_cons_of_ne_nil (Nat.toDigits_ne_nil (n := n.natAbs) (b := 10))
  rw [Text.toList_toString_int]
  split
  next => exact ⟨'-', _, rfl, .inl rfl⟩
  next =>
    have hdigit : c.isDigit = true :=
      Nat.isDigit_of_mem_toDigits (by decide) (by decide) (hc ▸ List.mem_cons_self)
    exact ⟨c, cs, hc, .inr hdigit⟩

theorem ne_of_number {c d : Char} (h : c = '-' ∨ c.isDigit = true)
    (hd : d ≠ '-' ∧ d.isDigit = false) : c ≠ d := by
  rintro rfl
  rcases h with h | h
  · exact hd.1 h
  · exact absurd (h.symm.trans hd.2) (by decide)

theorem isSpace_of_number {c : Char} (h : c = '-' ∨ c.isDigit = true) : isSpace c = false := by
  have hspace := ne_of_number h (d := ' ') (by decide)
  have hline := ne_of_number h (d := '\n') (by decide)
  have htab := ne_of_number h (d := '\t') (by decide)
  have hreturn := ne_of_number h (d := '\r') (by decide)
  simp [isSpace, hspace, hline, htab, hreturn]

/-- A value starts neither with space nor with what closes an array. -/
theorem render_first (j : Json) :
    ∃ c cs, j.render.toList = c :: cs ∧ isSpace c = false ∧ c ≠ ']' := by
  cases j with
  | null => exact ⟨'n', _, rfl, by decide, by decide⟩
  | bool b => cases b <;> exact ⟨_, _, rfl, by decide, by decide⟩
  | int n =>
    obtain ⟨c, cs, h, hc⟩ := toString_first n
    exact ⟨c, cs, h, isSpace_of_number hc, ne_of_number hc (by decide)⟩
  | real => exact ⟨'0', _, rfl, by decide, by decide⟩
  | str s => exact ⟨'"', _, toList_render_str s, by decide, by decide⟩
  | arr items => exact ⟨'[', _, toList_render_arr items, by decide, by decide⟩
  | obj members => exact ⟨'\x7b', _, toList_render_obj members, by decide, by decide⟩

theorem joined_first (j : Json) (items : List Json) :
    ∃ c cs, joined (renderItems (j :: items)) = c :: cs ∧ isSpace c = false ∧ c ≠ ']' := by
  obtain ⟨c, cs, h, hc, hclose⟩ := j.render_first
  cases items with
  | nil => exact ⟨c, cs, by rw [renderItems, renderItems, joined_singleton, h], hc, hclose⟩
  | cons k items =>
    refine ⟨c, cs ++ ',' :: joined (renderItems (k :: items)), ?_, hc, hclose⟩
    rw [renderItems, renderItems, joined_cons_cons, h, List.cons_append]

theorem joined_members (key : String) (value : Json) (members : List (String × Json)) :
    ∃ cs, joined (renderMembers ((key, value) :: members)) = '"' :: cs := by
  have hfirst : ∃ cs, (renderString key ++ ":" ++ value.render).toList = '"' :: cs := by
    simp only [String.toList_append, toList_renderString]
    exact ⟨_, rfl⟩
  obtain ⟨cs, h⟩ := hfirst
  cases members with
  | nil => exact ⟨cs, by rw [renderMembers, renderMembers, joined_singleton, h]⟩
  | cons member members =>
    refine ⟨cs ++ ',' :: joined (renderMembers (member :: members)), ?_⟩
    rw [renderMembers, renderMembers, joined_cons_cons, h, List.cons_append]

theorem skipSpace_cons {c : Char} (h : isSpace c = false) (cs : List Char) :
    skipSpace (c :: cs) = c :: cs := by
  simp [skipSpace, h]

/-- Everything is looked at in full. -/
abbrev Care.whole : Care := .full fun _ => false

variable {fuel depth : Nat} {care : Care} {cs rest : List Char}

theorem readValue_number {c : Char} (h : c = '-' ∨ c.isDigit = true) :
    readValue (fuel + 1) care depth (c :: cs) = number? (c :: cs) := by
  unfold readValue
  rw [skipSpace_cons (isSpace_of_number h)]
  split
  next heq => exact absurd (List.cons.inj heq).1 (ne_of_number h (by decide))
  next heq => exact absurd (List.cons.inj heq).1 (ne_of_number h (by decide))
  next heq => exact absurd (List.cons.inj heq).1 (ne_of_number h (by decide))
  next heq => exact absurd (List.cons.inj heq).1 (ne_of_number h (by decide))
  next heq => exact absurd (List.cons.inj heq).1 (ne_of_number h (by decide))
  next heq => exact absurd (List.cons.inj heq).1 (ne_of_number h (by decide))
  next => rfl

theorem readValue_bracket : readValue (fuel + 1) care depth ('[' :: cs) =
    match depth, skipSpace cs with
    | 0, _ => none
    | _ + 1, ']' :: rest => some (arr [], rest)
    | depth + 1, cs => (readItems fuel care.inner depth cs).map fun (items, rest) =>
      (arr items, rest) := rfl

theorem readValue_arr {c : Char} (hspace : isSpace c = false) (hclose : c ≠ ']') :
    readValue (fuel + 1) care (depth + 1) ('[' :: c :: cs) =
      (readItems fuel care.inner depth (c :: cs)).map fun (items, rest) => (arr items, rest) := by
  rw [readValue_bracket, skipSpace_cons hspace]
  split
  next hdepth => simp at hdepth
  next heq => exact absurd (List.cons.inj heq).1 hclose
  next hdepth _ =>
    cases hdepth
    rfl

theorem readValue_obj : readValue (fuel + 1) care (depth + 1) ('\x7b' :: '"' :: cs) =
    (readMembers fuel care depth ('"' :: cs)).map fun (members, rest) => (obj members, rest) := rfl

theorem readValue_quote : readValue (fuel + 1) .whole depth ('"' :: cs) =
    (splitString cs).bind fun (raw, rest) =>
      (stringText? raw).bind fun s => some (str s, rest) := rfl

theorem readValue_str (s : String) (rest : List Char) :
    readValue (fuel + 1) .whole depth ((str s).render.toList ++ rest) = some (str s, rest) := by
  simp only [toList_render_str, List.cons_append, List.append_assoc, List.nil_append,
    readValue_quote, splitString_flatMap_escape, Option.bind_some, stringText?_escape]

/-- What stands behind an item decides between the end of the array and the next item. -/
theorem readItems_cons {item : Json} {items : List Json} {behind : List Char}
    (h : readValue fuel care depth cs = some (item, behind))
    (hbehind : behind = ']' :: rest ∧ items = [] ∨
      ∃ more, behind = ',' :: more ∧ readItems fuel care depth more = some (items, rest)) :
    readItems (fuel + 1) care depth cs = some (item :: items, rest) := by
  simp only [readItems, h, Option.bind_eq_bind, Option.bind_some]
  rcases hbehind with ⟨rfl, rfl⟩ | ⟨more, rfl, hmore⟩
  · rw [skipSpace_cons (by decide)]
    rfl
  · simp only [skipSpace_cons (show isSpace ',' = false by decide), hmore]
    rfl

theorem readMembers_cons {key : String} {value : Json} {members : List (String × Json)}
    {behind : List Char} (h : readValue fuel .whole depth cs = some (value, behind))
    (hbehind : behind = '\x7d' :: rest ∧ members = [] ∨
      ∃ more, behind = ',' :: more ∧ readMembers fuel .whole depth more = some (members, rest)) :
    readMembers (fuel + 1) .whole depth ((renderString key).toList ++ ':' :: cs) =
      some ((key, value) :: members, rest) := by
  have hquote := skipSpace_cons (show isSpace '"' = false by decide)
    (key.toList.flatMap escape ++ '"' :: ':' :: cs)
  have hcolon := skipSpace_cons (show isSpace ':' = false by decide) cs
  simp only [toList_renderString, List.cons_append, List.append_assoc, List.nil_append,
    readMembers, hquote, splitString_flatMap_escape, Option.bind_eq_bind, Option.bind_some,
    Care.text?, stringText?_escape, hcolon, Care.forMember, Bool.false_eq_true, ↓reduceIte, h]
  rcases hbehind with ⟨rfl, rfl⟩ | ⟨more, rfl, hmore⟩
  · rw [skipSpace_cons (by decide)]
    rfl
  · simp only [skipSpace_cons (show isSpace ',' = false by decide), hmore]
    rfl

theorem readValue_items {item : Json} {items : List Json}
    (h : readItems fuel .whole depth (joined (renderItems (item :: items)) ++ ']' :: rest) =
      some (item :: items, rest)) :
    readValue (fuel + 1) .whole (depth + 1) ((arr (item :: items)).render.toList ++ rest) =
      some (arr (item :: items), rest) := by
  obtain ⟨c, cs, hfirst, hspace, hclose⟩ := joined_first item items
  rw [hfirst] at h
  rw [toList_render_arr, hfirst]
  simp only [List.cons_append, List.append_assoc, List.nil_append] at h ⊢
  rw [readValue_arr hspace hclose, Care.inner, h]
  rfl

theorem readValue_members {member : String × Json} {members : List (String × Json)}
    (h : readMembers fuel .whole depth
      (joined (renderMembers (member :: members)) ++ '\x7d' :: rest) =
        some (member :: members, rest)) :
    readValue (fuel + 1) .whole (depth + 1) ((obj (member :: members)).render.toList ++ rest) =
      some (obj (member :: members), rest) := by
  obtain ⟨cs, hfirst⟩ := joined_members member.1 member.2 members
  rw [hfirst] at h
  rw [toList_render_obj, hfirst]
  simp only [List.cons_append, List.append_assoc, List.nil_append] at h ⊢
  rw [readValue_obj, h]
  rfl

mutual

theorem readValue_render (j : Json) : ∀ {fuel depth : Nat} {rest : List Char},
    2 * j.render.toList.length ≤ fuel + 1 → j.nesting ≤ depth → Text.StopsAt isValueEnd rest →
    readValue fuel .whole depth (j.render.toList ++ rest) = some (j, rest) := by
  intro fuel depth rest hf hd hrest
  -- A value takes one call and a list in it one more, which its two brackets pay for.
  obtain ⟨fuel, rfl⟩ : ∃ less, fuel = less + 1 := by
    obtain ⟨c, cs, h, -, -⟩ := j.render_first
    rw [h, List.length_cons] at hf
    exact Nat.exists_eq_add_of_le' (by omega)
  cases j with
  | null => rfl
  | bool b => cases b <;> rfl
  | real => exact (readValue_number (.inr (by decide))).trans (number?_real hrest)
  | int n =>
    obtain ⟨c, cs, h, hc⟩ := toString_first n
    have hread := number?_toString n hrest
    rw [render, h, List.cons_append, readValue_number hc, ← List.cons_append, ← h, hread]
  | str s => exact readValue_str s rest
  | arr items =>
    rw [nesting] at hd
    obtain ⟨depth, rfl⟩ := Nat.exists_eq_add_of_le' (Nat.le_trans (Nat.le_add_left 1 _) hd)
    cases items with
    | nil => rfl
    | cons item items =>
      simp only [toList_render_arr, List.length_cons, List.length_append, List.length_nil] at hf
      exact readValue_items (readItems_render (item :: items) (by simp) (by omega) (by omega))
  | obj members =>
    rw [nesting] at hd
    obtain ⟨depth, rfl⟩ := Nat.exists_eq_add_of_le' (Nat.le_trans (Nat.le_add_left 1 _) hd)
    cases members with
    | nil => rfl
    | cons member members =>
      simp only [toList_render_obj, List.length_cons, List.length_append, List.length_nil] at hf
      exact readValue_members
        (readMembers_render (member :: members) (by simp) (by omega) (by omega))

theorem readItems_render (items : List Json) : ∀ {fuel depth : Nat} {rest : List Char},
    items ≠ [] → 2 * (joined (renderItems items)).length ≤ fuel → nestingOfItems items ≤ depth →
    readItems fuel .whole depth (joined (renderItems items) ++ ']' :: rest) =
      some (items, rest) := by
  intro fuel depth rest hne hf hd
  cases items with
  | nil => exact absurd rfl hne
  | cons item items =>
    obtain ⟨fuel, rfl⟩ : ∃ less, fuel = less + 1 := by
      obtain ⟨c, cs, h, -, -⟩ := joined_first item items
      rw [h, List.length_cons] at hf
      exact Nat.exists_eq_add_of_le' (by omega)
    rw [nestingOfItems] at hd
    cases items with
    | nil =>
      simp only [renderItems, joined_singleton] at hf ⊢
      exact readItems_cons
        (readValue_render item (by omega) (by omega) (Text.stopsAt_cons rfl _))
        (.inl ⟨rfl, rfl⟩)
    | cons next items =>
      have htext : joined (renderItems (item :: next :: items)) =
          item.render.toList ++ ',' :: joined (renderItems (next :: items)) := by
        simp only [renderItems, joined_cons_cons]
      simp only [htext, List.length_append, List.length_cons] at hf
      have hmore : readItems fuel .whole depth
          (joined (renderItems (next :: items)) ++ ']' :: rest) = some (next :: items, rest) :=
        readItems_render (next :: items) (by simp) (by omega) (by omega)
      rw [htext, List.append_assoc]
      exact readItems_cons
        (readValue_render item (by omega) (by omega) (Text.stopsAt_cons rfl _))
        (.inr ⟨_, rfl, hmore⟩)

theorem readMembers_render (members : List (String × Json)) : ∀ {fuel depth : Nat}
    {rest : List Char}, members ≠ [] → 2 * (joined (renderMembers members)).length ≤ fuel →
    nestingOfMembers members ≤ depth →
    readMembers fuel .whole depth (joined (renderMembers members) ++ '\x7d' :: rest) =
      some (members, rest) := by
  intro fuel depth rest hne hf hd
  cases members with
  | nil => exact absurd rfl hne
  | cons member members =>
    obtain ⟨key, value⟩ := member
    obtain ⟨fuel, rfl⟩ : ∃ less, fuel = less + 1 := by
      obtain ⟨cs, h⟩ := joined_members key value members
      rw [h, List.length_cons] at hf
      exact Nat.exists_eq_add_of_le' (by omega)
    rw [nestingOfMembers] at hd
    cases members with
    | nil =>
      have htext : joined (renderMembers [(key, value)]) =
          (renderString key).toList ++ ':' :: value.render.toList := by
        simp only [renderMembers, joined_singleton, String.toList_append, List.append_assoc]
        rfl
      simp only [htext, List.length_append, List.length_cons] at hf
      rw [htext, List.append_assoc, List.cons_append]
      exact readMembers_cons
        (readValue_render value (by omega) (by omega) (Text.stopsAt_cons rfl _))
        (.inl ⟨rfl, rfl⟩)
    | cons next members =>
      have htext : joined (renderMembers ((key, value) :: next :: members)) =
          (renderString key).toList ++ ':' :: (value.render.toList ++ ',' ::
            joined (renderMembers (next :: members))) := by
        simp only [renderMembers, joined_cons_cons, String.toList_append, List.append_assoc]
        rfl
      simp only [htext, List.length_append, List.length_cons] at hf
      have hmore : readMembers fuel .whole depth
          (joined (renderMembers (next :: members)) ++ '\x7d' :: rest) =
          some (next :: members, rest) :=
        readMembers_render (next :: members) (by simp) (by omega) (by omega)
      rw [htext, List.append_assoc, List.cons_append, List.append_assoc, List.cons_append]
      exact readMembers_cons
        (readValue_render value (by omega) (by omega) (Text.stopsAt_cons rfl _))
        (.inr ⟨_, rfl, hmore⟩)

end

/-- The text of a document is read as the document, if it does not nest too deep. -/
theorem parse_render {j : Json} (h : j.nesting ≤ maxDepth) : parse j.render = some j := by
  have hread : readValue (2 * j.render.toList.length + 2) .whole maxDepth (j.render.toList ++ []) =
      some (j, []) := readValue_render j (by omega) h Text.stopsAt_nil
  rw [List.append_nil] at hread
  rw [parse, parseTo, hread]
  rfl

theorem nesting_of_number? {cs rest : List Char} {j : Json} (h : number? cs = some (j, rest)) :
    j.nesting = 0 := by
  unfold number? at h
  split at h
  next sign digits _ =>
    simp only [Option.bind_eq_bind, Option.bind_none, Option.ite_none_left_eq_some,
      Option.bind_eq_some_iff] at h
    obtain ⟨-, ⟨fractional, behind⟩, -, ⟨scaled, behind'⟩, -, h⟩ := h
    split at h <;> cases h <;> rfl

mutual

theorem nesting_of_readValue : ∀ {fuel : Nat} {care : Care} {depth : Nat} {cs rest : List Char}
    {j : Json}, readValue fuel care depth cs = some (j, rest) → j.nesting ≤ depth
  | 0, _, _, _, _, _, h => by simp [readValue] at h
  | fuel + 1, care, depth, cs, rest, j, h => by
    unfold readValue at h
    split at h
    next =>
      cases h
      exact Nat.zero_le _
    next =>
      cases h
      exact Nat.zero_le _
    next =>
      cases h
      exact Nat.zero_le _
    next =>
      obtain ⟨⟨raw, behind⟩, -, h⟩ := Option.bind_eq_some_iff.mp h
      obtain ⟨s, -, h⟩ := Option.bind_eq_some_iff.mp h
      cases h
      exact Nat.zero_le _
    next =>
      split at h
      next => simp at h
      next =>
        cases h
        simp [nesting, nestingOfItems]
      next =>
        obtain ⟨⟨items, behind⟩, hitems, h⟩ := Option.map_eq_some_iff.mp h
        cases h
        exact Nat.succ_le_succ (nesting_of_readItems hitems)
    next =>
      split at h
      next => simp at h
      next =>
        cases h
        simp [nesting, nestingOfMembers]
      next =>
        obtain ⟨⟨members, behind⟩, hmembers, h⟩ := Option.map_eq_some_iff.mp h
        cases h
        exact Nat.succ_le_succ (nesting_of_readMembers hmembers)
    next =>
      rw [nesting_of_number? h]
      exact Nat.zero_le _

theorem nesting_of_readItems : ∀ {fuel : Nat} {care : Care} {depth : Nat} {cs rest : List Char}
    {items : List Json}, readItems fuel care depth cs = some (items, rest) →
    nestingOfItems items ≤ depth
  | 0, _, _, _, _, _, h => by simp [readItems] at h
  | fuel + 1, care, depth, cs, rest, items, h => by
    rw [readItems] at h
    obtain ⟨⟨item, behind⟩, hitem, h⟩ := Option.bind_eq_some_iff.mp h
    have hd := nesting_of_readValue hitem
    dsimp only at h
    split at h
    next =>
      obtain ⟨⟨more, behind'⟩, hmore, h⟩ := Option.bind_eq_some_iff.mp h
      cases h
      exact Nat.max_le.mpr ⟨hd, nesting_of_readItems hmore⟩
    next =>
      cases h
      exact Nat.max_le.mpr ⟨hd, Nat.zero_le _⟩
    next => simp at h

theorem nesting_of_readMembers : ∀ {fuel : Nat} {care : Care} {depth : Nat} {cs rest : List Char}
    {members : List (String × Json)}, readMembers fuel care depth cs = some (members, rest) →
    nestingOfMembers members ≤ depth
  | 0, _, _, _, _, _, h => by simp [readMembers] at h
  | fuel + 1, care, depth, cs, rest, members, h => by
    unfold readMembers at h
    split at h
    next =>
      obtain ⟨⟨raw, behind⟩, -, h⟩ := Option.bind_eq_some_iff.mp h
      obtain ⟨key, -, h⟩ := Option.bind_eq_some_iff.mp h
      dsimp only at h
      split at h
      next =>
        obtain ⟨⟨value, behind'⟩, hvalue, h⟩ := Option.bind_eq_some_iff.mp h
        have hd := nesting_of_readValue hvalue
        dsimp only at h
        split at h
        next =>
          obtain ⟨⟨more, behind''⟩, hmore, h⟩ := Option.bind_eq_some_iff.mp h
          cases h
          exact Nat.max_le.mpr ⟨hd, nesting_of_readMembers hmore⟩
        next =>
          cases h
          exact Nat.max_le.mpr ⟨hd, Nat.zero_le _⟩
        next => simp at h
      next => simp at h
    next => simp at h

end

theorem nesting_of_parse {text : String} {j : Json} (h : parse text = some j) :
    j.nesting ≤ maxDepth := by
  unfold parse parseTo at h
  dsimp only at h
  split at h
  next hread =>
    split at h
    next =>
      cases h
      exact nesting_of_readValue hread
    next => simp at h
  next => simp at h

end TreeFacts.Json
