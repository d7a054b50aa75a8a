import Mathlib.Data.List.TakeWhile
import TreeFacts.Proofs.Runs
import TreeFacts.Template.Syntax

namespace TreeFacts.Template

/-- A name of letters, digits and underscores. -/
def IsSegment (cs : List Char) : Prop := cs ≠ [] ∧ ∀ c ∈ cs, isSegmentChar c = true

/-- The text of a path, with each segment behind a point. -/
def pathChars (path : List (List Char)) : List Char := path.flatMap ('.' :: ·)

@[simp] theorem pathChars_nil : pathChars [] = [] := rfl

@[simp] theorem pathChars_cons (segment : List Char) (path : List (List Char)) :
    pathChars (segment :: path) = '.' :: (segment ++ pathChars path) := rfl

namespace Placeholder

structure WellFormed (p : Placeholder) : Prop where
  digits_ne_nil : p.digits ≠ []
  isDecimalDigit : ∀ d ∈ p.digits, Text.isDecimalDigit d = true
  isSegment : ∀ segment ∈ p.path, IsSegment segment

/-- The text that a placeholder is read from. -/
def chars (p : Placeholder) : List Char := '\x7b' :: (p.digits ++ '\x7d' :: pathChars p.path)

/-- The longest placeholder that the text begins with. -/
structure Longest (p : Placeholder) (cs : List Char) : Prop where
  wellFormed : p.WellFormed
  begins : p.chars <+: cs
  longest : ∀ q : Placeholder, q.WellFormed → q.chars <+: cs → q.chars.length ≤ p.chars.length

end Placeholder

/-- A text cut from the left: the longest placeholder wherever one begins, and a character of the
text wherever none does. -/
inductive Cuts : List Char → List Piece → Prop
  | done : Cuts [] []
  | char {c cs ps} : (∀ p : Placeholder, p.WellFormed → ¬p.chars <+: c :: cs) → Cuts cs ps →
      Cuts (c :: cs) (.char c :: ps)
  | placeholder {p cs rest ps} : p.Longest cs → cs = p.chars ++ rest → Cuts rest ps →
      Cuts cs (.placeholder p :: ps)

/-- What follows a placeholder's closing brace: segments for as long as one begins, each of them
to its end. -/
inductive Follows : List Char → List (List Char) → List Char → Prop
  | stop {cs} : (∀ segment rest, IsSegment segment → cs ≠ '.' :: (segment ++ rest)) →
      Follows cs [] cs
  | segment {segment rest path after} : IsSegment segment →
      (∀ c ∈ rest.head?, isSegmentChar c = false) → Follows rest path after →
      Follows ('.' :: (segment ++ rest)) (segment :: path) after

theorem isSegmentChar_point : isSegmentChar '.' = false := by decide

/-- A segment ends before the next point. -/
theorem head?_pathChars (path : List (List Char)) :
    ∀ c ∈ (pathChars path).head?, isSegmentChar c = false := by
  intro c hc
  cases path with
  | nil => cases hc
  | cons segment path =>
    cases hc
    exact isSegmentChar_point

theorem segments_follows {fuel : Nat} {cs : List Char} (h : cs.length ≤ fuel) :
    Follows cs (segments fuel cs).1 (segments fuel cs).2 := by
  induction fuel generalizing cs with
  | zero =>
    cases List.length_eq_zero_iff.mp (Nat.le_zero.mp h)
    exact .stop fun segment rest _ heq => nomatch heq
  | succ fuel ih =>
    unfold segments
    split
    next _ fuel' rest hfuel =>
      cases hfuel
      dsimp only
      split
      next hempty =>
        refine .stop fun segment back hsegment heq => hsegment.1 ?_
        rw [(List.cons.inj heq).2, List.isEmpty_iff,
          List.takeWhile_append_of_pos hsegment.2] at hempty
        exact (List.append_eq_nil_iff.mp hempty).1
      next hempty =>
        have hsegment : IsSegment (rest.takeWhile isSegmentChar) :=
          ⟨fun hnil => hempty (List.isEmpty_iff.mpr hnil), fun c => List.mem_takeWhile_imp⟩
        have hlength : (rest.dropWhile isSegmentChar).length ≤ fuel :=
          Nat.le_trans (List.dropWhile_suffix isSegmentChar).length_le (Nat.le_of_succ_le_succ h)
        have hfollows := Follows.segment hsegment Text.head?_dropWhile_eq_false (ih hlength)
        rwa [List.takeWhile_append_dropWhile] at hfollows
    next hother =>
      exact .stop fun segment rest _ heq => hother fuel _ rfl heq

namespace Follows

variable {cs after : List Char} {path other : List (List Char)}

theorem text (h : Follows cs path after) : cs = pathChars path ++ after := by
  induction h with
  | stop => rfl
  | segment _ _ _ ih => rw [ih, pathChars_cons, List.cons_append, List.append_assoc]

theorem isSegment (h : Follows cs path after) : ∀ segment ∈ path, IsSegment segment := by
  induction h with
  | stop => exact fun segment hsegment => absurd hsegment List.not_mem_nil
  | segment hsegment _ _ ih => exact List.forall_mem_cons.mpr ⟨hsegment, ih⟩

/-- No path that the text begins with is longer. -/
theorem longest (h : Follows cs path after) (hother : ∀ segment ∈ other, IsSegment segment)
    (hbegins : pathChars other <+: cs) : (pathChars other).length ≤ (pathChars path).length := by
  induction h generalizing other with
  | stop hstop =>
    cases other with
    | nil => exact Nat.le_refl _
    | cons segment other =>
      obtain ⟨rest, heq⟩ := hbegins
      rw [pathChars_cons, List.cons_append, List.append_assoc] at heq
      exact absurd heq.symm (hstop _ _ (List.forall_mem_cons.mp hother).1)
  | @segment run rest path after hrun hend _ ih =>
    cases other with
    | nil => exact Nat.zero_le _
    | cons segment other =>
      obtain ⟨hsegment, hother⟩ := List.forall_mem_cons.mp hother
      rw [pathChars_cons, List.cons_prefix_cons] at hbegins
      obtain ⟨back, heq⟩ := hbegins.2
      rw [List.append_assoc] at heq
      have htake : (segment ++ (pathChars other ++ back)).takeWhile isSegmentChar = run := by
        rw [heq, Text.takeWhile_run hrun.2 hend]
      rw [pathChars_cons, pathChars_cons, List.length_cons, List.length_cons, List.length_append,
        List.length_append]
      -- The first segments agree, unless the other path ends within this one.
      cases other with
      | nil =>
        rw [List.takeWhile_append_of_pos hsegment.2] at htake
        have hlength := congrArg List.length htake
        rw [List.length_append] at hlength
        rw [pathChars_nil, List.length_nil]
        omega
      | cons next other =>
        have hpoint : ∀ c ∈ (pathChars (next :: other) ++ back).head?, isSegmentChar c = false :=
          head?_pathChars (next :: other)
        rw [Text.takeWhile_run hsegment.2 hpoint] at htake
        have hrest : pathChars (next :: other) ++ back = rest := by
          rwa [htake, List.append_cancel_left_eq] at heq
        have hle := ih hother ⟨back, hrest⟩
        rw [htake]
        omega

end Follows

theorem pathChars_inj {path other : List (List Char)}
    (hpath : ∀ segment ∈ path, IsSegment segment) (hother : ∀ segment ∈ other, IsSegment segment)
    (h : pathChars path = pathChars other) : path = other := by
  induction path generalizing other with
  | nil =>
    cases other with
    | nil => rfl
    | cons segment other => cases h
  | cons segment path ih =>
    cases other with
    | nil => cases h
    | cons segment' other =>
      obtain ⟨hsegment, hpath⟩ := List.forall_mem_cons.mp hpath
      obtain ⟨hsegment', hother⟩ := List.forall_mem_cons.mp hother
      have hrest : segment ++ pathChars path = segment' ++ pathChars other := (List.cons.inj h).2
      have htake := congrArg (List.takeWhile isSegmentChar) hrest
      rw [Text.takeWhile_run hsegment.2 (head?_pathChars path),
        Text.takeWhile_run hsegment'.2 (head?_pathChars other)] at htake
      rw [htake, List.append_cancel_left_eq] at hrest
      rw [htake, ih hpath hother hrest]

namespace Placeholder

variable {p q : Placeholder} {cs after : List Char}

/-- Digits end at the closing brace. -/
theorem head?_closed (rest : List Char) :
    ∀ c ∈ ('\x7d' :: rest).head?, Text.isDecimalDigit c = false := by
  intro c hc
  cases hc
  decide

theorem WellFormed.digits_of_begins (h : p.WellFormed) (hbegins : p.chars <+: '\x7b' :: cs) :
    cs.takeWhile Text.isDecimalDigit = p.digits ∧ ∃ rest,
      cs.dropWhile Text.isDecimalDigit = '\x7d' :: rest ∧ pathChars p.path <+: rest := by
  rw [chars, List.cons_prefix_cons] at hbegins
  obtain ⟨back, rfl⟩ := hbegins.2
  rw [List.append_assoc, List.cons_append]
  exact ⟨Text.takeWhile_run h.isDecimalDigit (head?_closed _), _,
    Text.dropWhile_run h.isDecimalDigit (head?_closed _), back, rfl⟩

theorem chars_inj (hp : p.WellFormed) (hq : q.WellFormed) (h : p.chars = q.chars) : p = q := by
  have hinside : p.digits ++ '\x7d' :: pathChars p.path = q.digits ++ '\x7d' :: pathChars q.path :=
    (List.cons.inj h).2
  have hdigits : p.digits = q.digits := by
    rw [← Text.takeWhile_run hp.isDecimalDigit (head?_closed (pathChars p.path)), hinside,
      Text.takeWhile_run hq.isDecimalDigit (head?_closed _)]
  rw [hdigits, List.append_cancel_left_eq] at hinside
  have hpath := pathChars_inj hp.isSegment hq.isSegment (List.cons.inj hinside).2
  cases p
  cases q
  cases hdigits
  cases hpath
  rfl

theorem Longest.eq (hp : p.Longest cs) (hq : q.Longest cs) : p = q := by
  refine chars_inj hp.wellFormed hq.wellFormed ?_
  have hlength : p.chars.length = q.chars.length :=
    Nat.le_antisymm (hq.longest p hp.wellFormed hp.begins) (hp.longest q hq.wellFormed hq.begins)
  exact (List.prefix_of_prefix_length_le hp.begins hq.begins (Nat.le_of_eq hlength)).eq_of_length
    hlength

theorem longest_of_follows {digits rest : List Char} {path : List (List Char)} (hne : digits ≠ [])
    (hdigits : ∀ d ∈ digits, Text.isDecimalDigit d = true) (h : Follows rest path after) :
    (Placeholder.mk digits path).Longest ('\x7b' :: (digits ++ '\x7d' :: rest)) := by
  have htext : (Placeholder.mk digits path).chars ++ after =
      '\x7b' :: (digits ++ '\x7d' :: rest) := by
    rw [chars, h.text, List.cons_append, List.append_assoc, List.cons_append]
  refine ⟨⟨hne, hdigits, h.isSegment⟩, ⟨after, htext⟩, fun q hq hbegins => ?_⟩
  obtain ⟨hsame, rest', hdrop, hpath⟩ := hq.digits_of_begins hbegins
  rw [Text.takeWhile_run hdigits (head?_closed rest)] at hsame
  rw [Text.dropWhile_run hdigits (head?_closed rest)] at hdrop
  have hle := h.longest hq.isSegment ((List.cons.inj hdrop).2 ▸ hpath)
  simp only [chars, List.length_cons, List.length_append, hsame]
  omega

theorem longest_of_placeholder? (h : placeholder? cs = some (p, after)) :
    '\x7b' :: cs = p.chars ++ after ∧ p.Longest ('\x7b' :: cs) := by
  unfold placeholder? at h
  dsimp only at h
  split at h
  next _ rest hdrop =>
    split at h
    next => cases h
    next hdigits =>
      cases h
      have hcs : cs = cs.takeWhile Text.isDecimalDigit ++ '\x7d' :: rest := by
        rw [← hdrop, List.takeWhile_append_dropWhile]
      have hfollows := segments_follows (Nat.le_refl rest.length)
      have hlongest := longest_of_follows (fun hnil => hdigits (List.isEmpty_iff.mpr hnil))
        (fun d => List.mem_takeWhile_imp) hfollows
      rw [← hcs] at hlongest
      refine ⟨?_, hlongest⟩
      rw [chars, List.cons_append, List.append_assoc, List.cons_append, ← hfollows.text, ← hcs]
  next => cases h

theorem not_begins_of_placeholder? (h : placeholder? cs = none) (hp : p.WellFormed) :
    ¬p.chars <+: '\x7b' :: cs := by
  intro hbegins
  obtain ⟨hdigits, rest, hdrop, -⟩ := hp.digits_of_begins hbegins
  unfold placeholder? at h
  rw [hdrop, hdigits] at h
  simp [hp.digits_ne_nil] at h

end Placeholder

open Placeholder

theorem piecesIn_cuts {fuel : Nat} {cs : List Char} (h : cs.length ≤ fuel) :
    Cuts cs (piecesIn fuel cs) := by
  induction fuel generalizing cs with
  | zero =>
    cases List.length_eq_zero_iff.mp (Nat.le_zero.mp h)
    exact .done
  | succ fuel ih =>
    cases cs with
    | nil => exact .done
    | cons c cs =>
      have hrest : cs.length ≤ fuel := Nat.le_of_succ_le_succ h
      rw [piecesIn]
      split
      next p after hsome =>
        split at hsome
        next hc =>
          cases hc
          obtain ⟨htext, hlongest⟩ := longest_of_placeholder? hsome
          have hlength := congrArg List.length htext
          rw [chars, List.cons_append, List.length_cons, List.length_cons, List.length_append]
            at hlength
          exact .placeholder hlongest htext (ih (by omega))
        next => cases hsome
      next hnone =>
        refine .char (fun p hp hbegins => ?_) (ih hrest)
        split at hnone
        next hc =>
          cases hc
          exact not_begins_of_placeholder? hnone hp hbegins
        next hc =>
          rw [chars, List.cons_prefix_cons] at hbegins
          exact hc hbegins.1.symm

theorem Cuts.eq {cs : List Char} {ps qs : List Piece} (hp : Cuts cs ps) (hq : Cuts cs qs) :
    ps = qs := by
  induction hp generalizing qs with
  | done =>
    cases hq with
    | done => rfl
    | placeholder hlongest heq => cases heq
  | char hnone _ ih =>
    cases hq with
    | char _ hrest => rw [ih hrest]
    | placeholder hlongest => exact absurd hlongest.begins (hnone _ hlongest.wellFormed)
  | placeholder hlongest heq _ ih =>
    cases hq with
    | done => cases heq
    | char hnone => exact absurd hlongest.begins (hnone _ hlongest.wellFormed)
    | placeholder hlongest' heq' hrest =>
      cases hlongest.eq hlongest'
      cases List.append_cancel_left (heq.symm.trans heq')
      rw [ih hrest]

theorem Cuts.wellFormed {cs : List Char} {ps : List Piece} (h : Cuts cs ps) {p : Placeholder}
    (hp : .placeholder p ∈ ps) : p.WellFormed := by
  induction h with
  | done => cases hp
  | char _ _ ih => exact ih ((List.mem_cons.mp hp).resolve_left (fun heq => nomatch heq))
  | placeholder hlongest _ _ ih =>
    rcases List.mem_cons.mp hp with heq | hp
    · cases heq
      exact hlongest.wellFormed
    · exact ih hp

end TreeFacts.Template
