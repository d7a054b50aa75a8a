import TreeFacts.Proofs.Ends
import TreeFacts.Proofs.Program.Header

namespace TreeFacts.Program

/-- A component stands at its offsets: a header through the brace that opens the body, the body, and
the brace that closes it. -/
structure Extent.Holds (text : List Char) (s : Extent) (body : List Char) : Prop where
  header : ∃ head, IsHeader head ∧ Text.slice? text s.start (s.opening + 1) = some head
  contents : Text.slice? text (s.opening + 1) s.closing = some body
  balanced : Balanced body
  brace : Text.slice? text s.closing (s.closing + 1) = some ['\x7d']

/-- The text from a cursor on with a line break in place of each component. -/
def withBreaks? (text : List Char) : Nat → List Extent → Option (List Char)
  | cursor, [] => Text.sliceFrom? text cursor
  | cursor, s :: spans => do
    let piece ← Text.slice? text cursor s.start
    let rest ← withBreaks? text (s.closing + 1) spans
    return piece ++ '\n' :: rest

/-- A call of the scan for the body of a component. -/
structure Trace.Scans (text : List Char) (s : Extent) (call : Trace) : Prop where
  holds : s.Holds text call.text
  shorter : call.text.length < text.length
  scanned : ∃ found, Ends (fun steps => (scanOffsets steps call.text).run) (.ok (found, call))

/-- The components behind a cursor are cut out exactly: in order and apart from each other, each
where a component stands and with one call that scans its body. No header begins outside of them. -/
structure Exact (text : List Char) (cursor : Nat) (spans : List Extent) (around : List Char)
    (calls : List Trace) : Prop where
  behind : ∀ s ∈ spans, cursor ≤ s.start
  ordered : spans.Pairwise fun s t => s.closing < t.start
  scans : List.Forall₂ (Trace.Scans text) spans calls
  around : withBreaks? text cursor spans = some around
  complete : ∀ head start stop, IsHeader head → cursor ≤ start →
    Text.slice? text start stop = some head → ∃ s ∈ spans, s.start ≤ start ∧ start ≤ s.closing

variable {text front before stem body rest head : List Char}

theorem IsHeader.exists_stem (h : IsHeader head) : ∃ stem, head = stem ++ ['\x7b'] := by
  cases h
  exact ⟨_, rfl⟩

/-- What is sliced off behind a cursor is a part of the text behind the cursor. -/
theorem slice?_behind {found : List Char} {start stop : Nat}
    (h : Text.slice? (front ++ rest) start stop = some found)
    (hstart : (Text.bytes front).length ≤ start) : ∃ before after,
      rest = before ++ (found ++ after) ∧ (Text.bytes (front ++ before)).length = start := by
  obtain ⟨whole, after, htext, hwhole, -⟩ := Text.slice?_eq_some.mp h
  rw [List.append_assoc] at htext
  rcases List.append_eq_append_iff.mp htext with ⟨before, rfl, hrest⟩ | ⟨more, rfl, hafter⟩
  · exact ⟨before, after, hrest, hwhole⟩
  · rw [Text.bytes_append, List.length_append] at hstart
    have hmore : (Text.bytes more).length = 0 := by omega
    cases more with
    | nil =>
      refine ⟨[], after, by simpa using hafter.symm, ?_⟩
      rw [List.append_nil, List.append_nil]
      exact hwhole
    | cons c more =>
      have hpos := c.utf8Size_pos
      rw [Text.bytes_cons, List.length_append, String.length_utf8EncodeChar] at hmore
      omega

theorem Exact.nil (h : firstHeader? rest = none) :
    Exact (front ++ rest) (Text.bytes front).length [] rest [] where
  behind s hs := absurd hs List.not_mem_nil
  ordered := .nil
  scans := .nil
  around := Text.sliceFrom?_append front rest
  complete head start stop hhead hstart hslice := by
    obtain ⟨before, after, hrest, -⟩ := slice?_behind hslice hstart
    exact absurd hhead (firstHeader?_none h before hrest)

section

variable (front before stem body rest)

/-- A text with a component behind two pieces of it. -/
def joined : List Char := front ++ (before ++ (stem ++ '\x7b' :: (body ++ '\x7d' :: rest)))

/-- Where that component stands. -/
def extentOf : Extent where
  start := (Text.bytes (front ++ before)).length
  opening := (Text.bytes (front ++ before ++ stem)).length
  closing := (Text.bytes (front ++ before ++ stem ++ ['\x7b'] ++ body)).length

/-- That text up to the end of the component. -/
def upTo : List Char := front ++ before ++ stem ++ ['\x7b'] ++ body ++ ['\x7d']

theorem joined_eq : joined front before stem body rest = upTo front before stem body ++ rest := by
  simp [joined, upTo]

theorem opening_succ : (extentOf front before stem body).opening + 1 =
    (Text.bytes (front ++ before ++ stem ++ ['\x7b'])).length :=
  (Text.length_bytes_concat rfl _).symm

theorem closing_succ : (extentOf front before stem body).closing + 1 =
    (Text.bytes (upTo front before stem body)).length :=
  (Text.length_bytes_concat rfl _).symm

theorem sliceFrom?_joined : Text.sliceFrom? (joined front before stem body rest)
    (Text.bytes front).length = some (before ++ (stem ++ '\x7b' :: (body ++ '\x7d' :: rest))) :=
  Text.sliceFrom?_append front _

theorem slice?_piece : Text.slice? (joined front before stem body rest) (Text.bytes front).length
    (extentOf front before stem body).start = some before :=
  Text.slice?_eq_some.mpr
    ⟨front, stem ++ '\x7b' :: (body ++ '\x7d' :: rest), by simp [joined], rfl, rfl⟩

theorem slice?_body : Text.slice? (joined front before stem body rest)
    ((extentOf front before stem body).opening + 1) (extentOf front before stem body).closing =
      some body := by
  rw [opening_succ]
  refine Text.slice?_eq_some.mpr ⟨front ++ before ++ stem ++ ['\x7b'], '\x7d' :: rest, ?_, rfl, rfl⟩
  simp [joined]

end

theorem extentOf_holds (hhead : IsHeader (stem ++ ['\x7b'])) (hbody : Balanced body) :
    (extentOf front before stem body).Holds (joined front before stem body rest) body where
  header := by
    refine ⟨stem ++ ['\x7b'], hhead, ?_⟩
    rw [opening_succ]
    refine Text.slice?_eq_some.mpr ⟨front ++ before, body ++ '\x7d' :: rest, ?_, rfl, ?_⟩
    · simp [joined]
    · rw [← List.append_assoc]
  contents := slice?_body front before stem body rest
  balanced := hbody
  brace := by
    rw [closing_succ]
    refine Text.slice?_eq_some.mpr
      ⟨front ++ before ++ stem ++ ['\x7b'] ++ body, rest, ?_, rfl, rfl⟩
    simp [joined]

/-- Where a component is cut out exactly, and what is behind it too, all of it is. -/
theorem Exact.cons {spans : List Extent} {around : List Char} {calls : List Trace} {call : Trace}
    (hfirst : FirstHeader (before ++ (stem ++ '\x7b' :: (body ++ '\x7d' :: rest))) before
      (stem ++ ['\x7b']) (body ++ '\x7d' :: rest))
    (hcall : Trace.Scans (joined front before stem body rest)
      (extentOf front before stem body) call)
    (hrest : Exact (joined front before stem body rest)
      (Text.bytes (upTo front before stem body)).length spans around calls) :
    Exact (joined front before stem body rest) (Text.bytes front).length
      (extentOf front before stem body :: spans) (before ++ '\n' :: around) (call :: calls) := by
  rw [← closing_succ] at hrest
  have hstart : (Text.bytes front).length ≤ (extentOf front before stem body).start := by
    simp [extentOf]
  have hclosing : (extentOf front before stem body).start ≤
      (extentOf front before stem body).closing := by
    simp [extentOf]
  refine ⟨?_, ?_, ?_, ?_, ?_⟩
  · intro s hs
    rcases List.mem_cons.mp hs with rfl | hs
    · exact hstart
    · have hbehind := hrest.behind s hs
      omega
  · refine List.pairwise_cons.mpr ⟨fun s hs => ?_, hrest.ordered⟩
    have hbehind := hrest.behind s hs
    omega
  · exact .cons hcall hrest.scans
  · rw [withBreaks?, slice?_piece, hrest.around]
    rfl
  · intro head start stop hhead hcursor hslice
    -- A header begins in the text in front, in the component, or behind it.
    by_cases hbefore : start < (extentOf front before stem body).start
    · obtain ⟨before', after, hrest', hlength⟩ := slice?_behind hslice hcursor
      have hless : before.length ≤ before'.length := hfirst.first before' head after hrest' hhead
      obtain ⟨more, rfl⟩ : before <+: before' :=
        List.prefix_of_prefix_length_le ⟨_, rfl⟩ ⟨_, hrest'.symm⟩ hless
      simp only [extentOf, Text.bytes_append, List.length_append] at hbefore hlength
      omega
    · by_cases hwithin : start ≤ (extentOf front before stem body).closing
      · exact ⟨_, List.mem_cons_self, by omega, hwithin⟩
      · obtain ⟨s, hs, hin⟩ := hrest.complete head start stop hhead (by omega) hslice
        exact ⟨s, List.mem_cons_of_mem _ hs, hin⟩

end TreeFacts.Program
