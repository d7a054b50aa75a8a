namespace TreeFacts.Program

/-- What follows the end of a block comment. -/
def closeComment? : List Char → Option (List Char)
  | [] => none
  | '*' :: '/' :: rest => some rest
  | _ :: rest => closeComment? rest

theorem closeComment?_length {cs rest : List Char} (h : closeComment? cs = some rest) :
    rest.length < cs.length := by
  induction cs using closeComment?.induct with
  | case1 => simp [closeComment?] at h
  | case2 r =>
    rw [closeComment?] at h
    cases h
    simp only [List.length_cons]
    omega
  | case3 c r hc ih =>
    rw [closeComment?] at h
    · exact Nat.lt_succ_of_lt (ih h)
    · exact hc

/-- A program without its comments: blocks that are closed, and the rest of a line after two
slashes. The text of strings is not set apart. -/
def removeComments : List Char → List Char
  | [] => []
  | '/' :: '*' :: rest =>
    match _h : closeComment? rest with
    | some after => removeComments after
    | none => '/' :: removeComments ('*' :: rest)
  | '/' :: '/' :: rest => removeComments (rest.dropWhile (· ≠ '\n'))
  | c :: rest => c :: removeComments rest
  termination_by cs => cs.length
  decreasing_by
    · have := closeComment?_length ‹_›
      simp only [List.length_cons]
      omega
    · simp
    · have := (List.dropWhile_sublist (· ≠ '\n') (l := rest)).length_le
      simp only [List.length_cons]
      omega
    · simp

end TreeFacts.Program
