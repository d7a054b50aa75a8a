import TreeFacts.Program.Component
import TreeFacts.Proofs.Program.Lexeme

namespace TreeFacts

theorem Text.dropFront?_quote {word front : List Char} (hword : '"' ∉ word) (behind : List Char) :
    dropFront? word (front ++ '"' :: behind) =
      (dropFront? word front).map (· ++ '"' :: behind) := by
  cases hfront : dropFront? word front with
  | some rest =>
    rw [dropFront?_eq_some.mp hfront, List.append_assoc, dropFront?_append]
    rfl
  | none =>
    cases hwhole : dropFront? word (front ++ '"' :: behind) with
    | none => rfl
    | some rest =>
      rcases List.append_eq_append_iff.mp (dropFront?_eq_some.mp hwhole) with
        ⟨more, hmore, hrest⟩ | ⟨more, hmore, -⟩
      · cases more with
        | nil =>
          have hsame : dropFront? word front = some [] :=
            dropFront?_eq_some.mpr (by simpa using hmore.symm)
          rw [hfront] at hsame
          cases hsame
        | cons c more =>
          cases (List.cons.inj hrest).1
          exact absurd (hmore ▸ List.mem_append_right front List.mem_cons_self) hword
      · rw [dropFront?_eq_some.mpr hmore] at hfront
        cases hfront

namespace Program

variable {α β : Type} {front behind behind' : List Char}

theorem takeWhile_quote {p : Char → Bool} (hp : p '"' = false) (front behind : List Char) :
    (front ++ '"' :: behind).takeWhile p = front.takeWhile p := by
  induction front with
  | nil => simp [hp]
  | cons c front ih =>
    rw [List.cons_append, List.takeWhile_cons, List.takeWhile_cons, ih]

theorem dropWhile_quote {p : Char → Bool} (hp : p '"' = false) (front behind : List Char) :
    (front ++ '"' :: behind).dropWhile p = front.dropWhile p ++ '"' :: behind := by
  induction front with
  | nil => simp [hp]
  | cons c front ih =>
    rw [List.cons_append, List.dropWhile_cons, List.dropWhile_cons, ih]
    split <;> rfl

theorem skipBlanks_quote (front behind : List Char) :
    skipBlanks (front ++ '"' :: behind) = skipBlanks front ++ '"' :: behind :=
  dropWhile_quote (by decide) front behind

theorem skipBlanks_suffix (cs : List Char) : skipBlanks cs <:+ cs := List.dropWhile_suffix _

theorem notMem_of_suffix {c : Char} {cs rest : List Char} (h : c ∉ cs) (hrest : rest <:+ cs) :
    c ∉ rest := fun hmem => h (hrest.subset hmem)

theorem suffix_of_append {rest : List Char} (h : rest ++ behind <:+ front ++ behind) :
    rest <:+ front := by
  obtain ⟨before, hbefore⟩ := h
  rw [← List.append_assoc] at hbefore
  exact ⟨before, List.append_cancel_right hbefore⟩

/-- Nothing is recognised across a quote, and what stands behind one does not matter. -/
structure Stops (recognise : Recogniser α) : Prop where
  suffix : ∀ {cs found rest}, recognise cs = some (found, rest) → rest <:+ cs
  quote : ∀ {front}, '"' ∉ front → ∀ behind, recognise (front ++ '"' :: behind) =
    (recognise front).map fun p => (p.1, p.2 ++ '"' :: behind)

/-- What is recognised in the same text in front of a quote, with one text behind the quote and
with another: the same, or on one side something that the quote is part of. -/
inductive Agree (behind behind' : List Char) (o o' : Option (α × List Char)) : Prop
  | nowhere (h : o = none) (h' : o' = none)
  | within {found : α} {rest : List Char} (h : o = some (found, rest ++ '"' :: behind))
    (h' : o' = some (found, rest ++ '"' :: behind'))
  | left {found : α} {rest : List Char} (h : o = some (found, rest))
    (hover : rest.length ≤ behind.length)
  | right {found : α} {rest : List Char} (h : o' = some (found, rest))
    (hover : rest.length ≤ behind'.length)

/-- What stands behind a quote only matters to what is recognised across the quote. -/
structure Steady (recognise : Recogniser α) : Prop where
  suffix : ∀ {cs found rest}, recognise cs = some (found, rest) → rest <:+ cs
  agree : ∀ {front}, '"' ∉ front → ∀ behind behind', Agree behind behind'
    (recognise (front ++ '"' :: behind)) (recognise (front ++ '"' :: behind'))

/-- A part of a statement that is only skipped. -/
def skipped (skip : List Char → Option (List Char)) : Recogniser Unit :=
  fun cs => (skip cs).map ((), ·)

theorem bind_skipped (skip : List Char → Option (List Char)) (next : Recogniser α)
    (cs : List Char) : (skip cs).bind next = (skipped skip cs).bind fun p => next p.2 := by
  unfold skipped
  cases skip cs <;> rfl

section

variable {recognise : Recogniser α} {next : α → Recogniser β} {then? : Recogniser β}
  {skip : List Char → Option (List Char)}

theorem skipped_stops (hsuffix : ∀ {cs rest}, skip cs = some rest → rest <:+ cs)
    (hquote : ∀ {front}, '"' ∉ front → ∀ behind,
      skip (front ++ '"' :: behind) = (skip front).map (· ++ '"' :: behind)) :
    Stops (skipped skip) where
  suffix {cs found rest} h := by
    obtain ⟨rest', hrest, heq⟩ := Option.map_eq_some_iff.mp h
    cases heq
    exact hsuffix hrest
  quote {front} hfront behind := by
    unfold skipped
    rw [hquote hfront, Option.map_map, Option.map_map]
    rfl

theorem Stops.skip_suffix (h : Stops (skipped skip)) {cs rest : List Char}
    (hrest : skip cs = some rest) : rest <:+ cs := by
  have hfound : skipped skip cs = some ((), rest) := by rw [skipped, hrest, Option.map_some]
  exact h.suffix hfound

theorem Stops.skip_quote (h : Stops (skipped skip)) (hfront : '"' ∉ front)
    (behind : List Char) :
    skip (front ++ '"' :: behind) = (skip front).map (· ++ '"' :: behind) := by
  have hquote := h.quote hfront behind
  unfold skipped at hquote
  cases hskip : skip front with
  | none => simpa [hskip] using hquote
  | some rest => simpa [hskip] using hquote

theorem bind_suffix (hfirst : ∀ {cs found rest}, recognise cs = some (found, rest) → rest <:+ cs)
    (hnext : ∀ a {cs found rest}, next a cs = some (found, rest) → rest <:+ cs)
    {cs : List Char} {found : β} {rest : List Char}
    (h : ((recognise cs).bind fun p => next p.1 p.2) = some (found, rest)) : rest <:+ cs := by
  obtain ⟨⟨a, middle⟩, hmiddle, hrest⟩ := Option.bind_eq_some_iff.mp h
  exact (hnext a hrest).trans (hfirst hmiddle)

theorem Stops.bind (hfirst : Stops recognise) (hnext : ∀ a, Stops (next a)) :
    Stops fun cs => (recognise cs).bind fun p => next p.1 p.2 where
  suffix h := bind_suffix hfirst.suffix (fun a => (hnext a).suffix) h
  quote {front} hfront behind := by
    rw [hfirst.quote hfront behind]
    cases hmiddle : recognise front with
    | none => rfl
    | some p =>
      have hrest := notMem_of_suffix hfront (hfirst.suffix hmiddle)
      exact (hnext p.1).quote hrest behind

theorem Stops.bind_skip (hskip : Stops (skipped skip)) (hthen : Stops then?) :
    Stops fun cs => (skip cs).bind then? := by
  have hbind := hskip.bind fun _ => hthen
  simpa only [bind_skipped] using hbind

theorem Stops.steady (h : Stops recognise) : Steady recognise where
  suffix := h.suffix
  agree {front} hfront behind behind' := by
    rw [h.quote hfront, h.quote hfront]
    cases recognise front with
    | none => exact .nowhere rfl rfl
    | some p => exact .within rfl rfl

theorem Stops.bind_steady (hfirst : Stops recognise) (hnext : ∀ a, Steady (next a)) :
    Steady fun cs => (recognise cs).bind fun p => next p.1 p.2 where
  suffix h := bind_suffix hfirst.suffix (fun a => (hnext a).suffix) h
  agree {front} hfront behind behind' := by
    rw [hfirst.quote hfront, hfirst.quote hfront]
    cases hmiddle : recognise front with
    | none => exact .nowhere rfl rfl
    | some p =>
      have hrest := notMem_of_suffix hfront (hfirst.suffix hmiddle)
      exact (hnext p.1).agree hrest behind behind'

theorem Stops.skip_steady (hskip : Stops (skipped skip)) (hthen : Steady then?) :
    Steady fun cs => (skip cs).bind then? := by
  have hbind := hskip.bind_steady fun _ => hthen
  simpa only [bind_skipped] using hbind

theorem Agree.map {o o' : Option (α × List Char)} (f : α → β) (h : Agree behind behind' o o') :
    Agree behind behind' (o.bind fun p => some (f p.1, p.2))
      (o'.bind fun p => some (f p.1, p.2)) := by
  cases h with
  | nowhere h h' => exact .nowhere (by rw [h]; rfl) (by rw [h']; rfl)
  | within h h' => exact .within (by rw [h]; rfl) (by rw [h']; rfl)
  | left h hover => exact .left (by rw [h]; rfl) hover
  | right h hover => exact .right (by rw [h]; rfl) hover

theorem Steady.map (h : Steady recognise) (f : α → β) :
    Steady fun cs => (recognise cs).bind fun p => some (f p.1, p.2) where
  suffix {cs found rest} hfound := by
    obtain ⟨p, hp, heq⟩ := Option.bind_eq_some_iff.mp hfound
    cases heq
    exact h.suffix hp
  agree hfront behind behind' := (h.agree hfront behind behind').map f

theorem stops_pure (a : α) : Stops fun cs => some (a, cs) where
  suffix h := by cases h; exact List.suffix_refl _
  quote _ _ := rfl

end

theorem dropFront?_stops {word : List Char} (hword : '"' ∉ word) :
    Stops (skipped (Text.dropFront? word)) :=
  skipped_stops (fun h => ⟨word, (Text.dropFront?_eq_some.mp h).symm⟩)
    fun _ behind => Text.dropFront?_quote hword behind

/-- Blanks in front of something are not part of what is recognised. -/
theorem Stops.skipBlanks {recognise : Recogniser α} (h : Stops recognise) :
    Stops fun cs => recognise (skipBlanks cs) where
  suffix hfound := (h.suffix hfound).trans (skipBlanks_suffix _)
  quote {front} hfront behind := by
    rw [skipBlanks_quote, h.quote (notMem_of_suffix hfront (skipBlanks_suffix front))]

theorem Steady.skipBlanks {recognise : Recogniser α} (h : Steady recognise) :
    Steady fun cs => recognise (skipBlanks cs) where
  suffix hfound := (h.suffix hfound).trans (skipBlanks_suffix _)
  agree {front} hfront behind behind' := by
    rw [skipBlanks_quote, skipBlanks_quote]
    exact h.agree (notMem_of_suffix hfront (skipBlanks_suffix front)) behind behind'

theorem keyword?_eq_some {word : String} {cs rest : List Char} (h : keyword? word cs = some rest) :
    ∃ after, Text.dropFront? word.toList cs = some after ∧ rest = Program.skipBlanks after := by
  obtain ⟨after, hafter, h⟩ := Option.bind_eq_some_iff.mp h
  obtain ⟨-, -, heq⟩ := Option.bind_eq_some_iff.mp h
  cases heq
  exact ⟨after, hafter, rfl⟩

theorem keyword?_stops {word : String} (hword : '"' ∉ word.toList) :
    Stops (skipped (keyword? word)) := by
  refine skipped_stops (fun {cs rest} h => ?_) (fun {front} _ behind => ?_)
  · obtain ⟨after, hafter, rfl⟩ := keyword?_eq_some h
    exact (skipBlanks_suffix after).trans ⟨word.toList, (Text.dropFront?_eq_some.mp hafter).symm⟩
  · unfold keyword?
    rw [Text.dropFront?_quote hword]
    cases Text.dropFront? word.toList front with
    | none => rfl
    | some rest =>
      show (guard (((rest ++ '"' :: behind).takeWhile Text.isBlank).length ≠ 0) : Option Unit).bind
          (fun _ => some (Program.skipBlanks (rest ++ '"' :: behind))) =
        ((guard ((rest.takeWhile Text.isBlank).length ≠ 0) : Option Unit).bind
          fun _ => some (Program.skipBlanks rest)).map (· ++ '"' :: behind)
      rw [takeWhile_quote (by decide), skipBlanks_quote]
      cases (guard ((rest.takeWhile Text.isBlank).length ≠ 0) : Option Unit) <;> rfl

theorem sign?_suffix {sign : String} {cs rest : List Char} (h : sign? sign cs = some rest) :
    rest <:+ cs := by
  obtain ⟨after, hafter, rfl⟩ := Option.map_eq_some_iff.mp h
  have hskip : after <:+ Program.skipBlanks cs :=
    ⟨sign.toList, (Text.dropFront?_eq_some.mp hafter).symm⟩
  exact (skipBlanks_suffix after).trans (hskip.trans (skipBlanks_suffix cs))

theorem sign?_stops {sign : String} (hsign : '"' ∉ sign.toList) : Stops (skipped (sign? sign)) := by
  refine skipped_stops sign?_suffix fun {front} _ behind => ?_
  unfold sign?
  rw [skipBlanks_quote, Text.dropFront?_quote hsign, Option.map_map, Option.map_map]
  congr 1
  funext rest
  exact skipBlanks_quote rest behind

theorem name?_stops : Stops name? where
  suffix {cs found rest} h := by
    obtain ⟨-, rfl⟩ := name?_sound h
    exact List.suffix_append found.toList rest
  quote {front} _ behind := by
    cases front with
    | nil => exact name?_eq_none (by decide) behind
    | cons c front =>
      rw [List.cons_append, name?, name?, takeWhile_quote (by decide), dropWhile_quote (by decide)]
      split <;> rfl

theorem more_suffix (fuel : Nat) (name : String) (cs : List Char) :
    (qualifiedName?.more fuel name cs).2 <:+ cs := by
  induction fuel generalizing name cs with
  | zero => exact List.suffix_refl cs
  | succ fuel ih =>
    unfold qualifiedName?.more
    split
    next rest =>
      split
      next part after hpart =>
        exact (ih _ after).trans ((name?_stops.suffix hpart).trans (List.suffix_cons '.' rest))
      next => exact List.suffix_refl _
    next => exact List.suffix_refl _

theorem more_quote {fuel fuel' : Nat} (name : String) (hfront : '"' ∉ front)
    (hfuel : front.length ≤ fuel) (hfuel' : front.length ≤ fuel') (behind : List Char) :
    qualifiedName?.more fuel name (front ++ '"' :: behind) =
      ((qualifiedName?.more fuel' name front).1,
        (qualifiedName?.more fuel' name front).2 ++ '"' :: behind) := by
  induction fuel generalizing fuel' name front with
  | zero =>
    have hnil : front = [] := List.length_eq_zero_iff.mp (by omega)
    subst hnil
    cases fuel' <;> rfl
  | succ fuel ih =>
    cases front with
    | nil => cases fuel' <;> rfl
    | cons c rest =>
      obtain ⟨fuel', rfl⟩ : ∃ n, fuel' = n + 1 := ⟨fuel' - 1, by simp at hfuel'; omega⟩
      have hrest : '"' ∉ rest := fun hmem => hfront (List.mem_cons_of_mem c hmem)
      by_cases hc : c = '.'
      · subst hc
        rw [List.cons_append, qualifiedName?.more, qualifiedName?.more]
        rw [name?_stops.quote hrest behind]
        cases hpart : name? rest with
        | none => rfl
        | some p =>
          have hsuffix := name?_stops.suffix hpart
          have hlength := hsuffix.length_le
          simp only [List.length_cons] at hfuel hfuel'
          exact ih _ (notMem_of_suffix hrest hsuffix) (by omega) (by omega)
      · have hpoint {tail : List Char} (rest : List Char) : c :: tail ≠ '.' :: rest :=
          fun heq => hc (List.cons.inj heq).1
        rw [List.cons_append, qualifiedName?.more, qualifiedName?.more]
        · rfl
        · exact hpoint
        · exact hpoint

theorem qualifiedName?_stops : Stops qualifiedName? where
  suffix {cs found rest} h := by
    obtain ⟨⟨name, after⟩, hname, heq⟩ := Option.bind_eq_some_iff.mp h
    have hmore := more_suffix cs.length name after
    rw [Option.some.inj heq] at hmore
    exact hmore.trans (name?_stops.suffix hname)
  quote {front} hfront behind := by
    show ((name? (front ++ '"' :: behind)).bind fun p =>
        some (qualifiedName?.more (front ++ '"' :: behind).length p.1 p.2)) =
      ((name? front).bind fun p => some (qualifiedName?.more front.length p.1 p.2)).map _
    rw [name?_stops.quote hfront]
    cases hname : name? front with
    | none => rfl
    | some p =>
      have hsuffix := name?_stops.suffix hname
      have hlength := hsuffix.length_le
      have hwhole : p.2.length ≤ (front ++ '"' :: behind).length := by
        rw [List.length_append]
        omega
      exact congrArg some (more_quote p.1 (notMem_of_suffix hfront hsuffix) hwhole hlength behind)

section

variable {stop : Char}

theorem before?_suffix {cs text rest : List Char} (h : before? stop cs = some (text, rest)) :
    rest <:+ cs := by
  obtain ⟨-, rfl⟩ := before?_sound h
  exact (List.suffix_cons stop rest).trans (List.suffix_append text _)

theorem before?_of_mem (h : stop ∈ front) : ∃ text rest, rest <:+ front ∧
    ∀ behind, before? stop (front ++ behind) = some (text, rest ++ behind) := by
  obtain ⟨text, rest, rfl, hfirst⟩ := List.eq_append_cons_of_mem h
  refine ⟨text, rest, ⟨text ++ [stop], by simp⟩, fun behind => ?_⟩
  rw [List.append_assoc]
  exact before?_append hfirst (rest ++ behind)

/-- Where the end is not found in front of a quote, what is found has the quote in it. -/
theorem before?_of_notMem (hstop : stop ≠ '"') (h : stop ∉ front) (behind : List Char) :
    before? stop (front ++ '"' :: behind) = none ∨
      ∃ text rest, before? stop (front ++ '"' :: behind) = some (text, rest) ∧
        rest.length ≤ behind.length := by
  induction front with
  | nil =>
    rw [List.nil_append, before?, if_neg (Ne.symm hstop)]
    cases hbehind : before? stop behind with
    | none => exact Or.inl rfl
    | some p => exact Or.inr ⟨_, p.2, rfl, (before?_suffix hbehind).length_le⟩
  | cons c front ih =>
    rw [List.mem_cons, not_or] at h
    rw [List.cons_append, before?, if_neg (Ne.symm h.1)]
    rcases ih h.2 with hnone | ⟨text, rest, hsome, hover⟩
    · exact Or.inl (by rw [hnone]; rfl)
    · exact Or.inr ⟨c :: text, rest, by rw [hsome]; rfl, hover⟩

/-- Where each side has nothing, or something across the quote, the sides agree. -/
theorem Agree.of_sides {o o' : Option (α × List Char)}
    (h : o = none ∨ ∃ found rest, o = some (found, rest) ∧ rest.length ≤ behind.length)
    (h' : o' = none ∨ ∃ found rest, o' = some (found, rest) ∧ rest.length ≤ behind'.length) :
    Agree behind behind' o o' := by
  rcases h with h | ⟨found, rest, h, hover⟩
  · rcases h' with h' | ⟨found, rest, h', hover⟩
    · exact .nowhere h h'
    · exact .right h' hover
  · exact .left h hover

theorem before?_steady (hstop : stop ≠ '"') : Steady (before? stop) where
  suffix h := before?_suffix h
  agree {front} _ behind behind' := by
    by_cases hmem : stop ∈ front
    · obtain ⟨text, rest, -, hfound⟩ := before?_of_mem hmem
      exact .within (hfound _) (hfound _)
    · exact .of_sides (before?_of_notMem hstop hmem behind) (before?_of_notMem hstop hmem behind')

end

end Program

end TreeFacts
