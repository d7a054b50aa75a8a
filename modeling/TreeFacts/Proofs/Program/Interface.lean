import TreeFacts.Program.Interface
import TreeFacts.Proofs.Program.Reading

namespace TreeFacts.Program

open Piece

variable {ps : List Piece}

theorem removeComments_append {cs : List Char} (h : '/' ∉ cs) (rest : List Char) :
    removeComments (cs ++ rest) = cs ++ removeComments rest := by
  induction cs with
  | nil => rfl
  | cons c cs ih =>
    rw [List.mem_cons, not_or] at h
    rw [List.cons_append, removeComments, ih h.2]
    · rfl
    · rintro _ rfl
      exact absurd rfl h.1
    · rintro _ rfl
      exact absurd rfl h.1

theorem removeComments_line {line : List Char} (h : '\n' ∉ line) (rest : List Char) :
    removeComments ('/' :: '/' :: (line ++ '\n' :: rest)) = '\n' :: removeComments rest := by
  have hline : (line ++ '\n' :: rest).dropWhile (· ≠ '\n') = '\n' :: rest := by
    rw [List.dropWhile_append_of_pos]
    · simp
    · intro c hc
      simp only [ne_eq, decide_not, Bool.not_eq_eq_eq_not, Bool.not_true, decide_eq_false_iff_not]
      rintro rfl
      exact h hc
  have hbreak : removeComments (['\n'] ++ rest) = ['\n'] ++ removeComments rest :=
    removeComments_append (by decide) rest
  rw [removeComments, hline]
  exact hbreak

theorem slash_notMem_text (hps : ∀ p ∈ ps, p.Plain) : '/' ∉ ps.flatMap text := by
  intro hmem
  obtain ⟨p, hp, hmem⟩ := List.mem_flatMap.mp hmem
  rcases text_cases (hps p hp) with ⟨-, -, hinner⟩ | ⟨letter, tail, -, htext, hinner⟩
  · exact (hinner '/' hmem).2 rfl
  · rw [htext] at hmem
    rcases List.mem_cons.mp hmem with hpoint | hmem
    · simp at hpoint
    · exact (hinner '/' hmem).2 rfl

/-- What is left of a heading is the end of its line. -/
theorem removeComments_section {heading : List Char} (hheading : '\n' ∉ heading)
    (hps : ∀ p ∈ ps, p.Plain) (rest : List Char) :
    removeComments ('/' :: '/' :: (heading ++ '\n' :: (ps.flatMap text ++ rest))) =
      (filler ['\n'] :: ps).flatMap text ++ removeComments rest := by
  rw [removeComments_line hheading, removeComments_append (slash_notMem_text hps)]
  rfl

theorem cuts_eq_nil {cs : List Char} (h : firstHeader? cs = none) (fuel : Nat) :
    cuts fuel cs = ([], cs) := by
  cases fuel with
  | zero => rfl
  | succ fuel => rw [cuts, h]

theorem scan_pieces (hps : ∀ p ∈ ps, p.Plain) :
    scan (ps.flatMap text) =
      .ok (⟨ps.filterMap type?, ps.filterMap Piece.declaration?, [], []⟩, []) := by
  have hread := read_pieces hps
  unfold scan
  cases (ps.flatMap text).length with
  | zero => rw [scanIn, hread, map_ok]
  | succ fuel =>
    rw [scanIn, cuts_eq_nil (firstHeader?_eq_none hps)]
    have hrest : remainder ([], ps.flatMap text) = ps.flatMap text := rfl
    rw [hrest, hread]
    rfl

/-- A text that is made of pieces but for comments is read piece by piece. -/
theorem parse_pieces (hps : ∀ p ∈ ps, p.Plain) {program : String}
    (hprogram : removeComments program.toList = ps.flatMap text) :
    Interface.parse program =
      .ok ⟨ps.filterMap type?, ps.filterMap Piece.declaration?, []⟩ := by
  have happend (i : Interface) : i ++ Interface.concat [] = i := by
    obtain ⟨types, relations, outputs⟩ := i
    show Interface.mk (types ++ []) (relations ++ []) (outputs ++ []) = _
    simp only [List.append_nil]
  unfold Interface.parse
  simp only
  rw [hprogram, scan_pieces hps, ok_bind]
  simp only [List.mapM_nil, pure_eq_ok, ok_bind, happend]

end TreeFacts.Program
