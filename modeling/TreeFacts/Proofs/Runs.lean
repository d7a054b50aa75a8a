import Mathlib.Data.List.Basic

namespace TreeFacts.Text

variable {α : Type} {p stop : α → Bool} {run rest : List α}

/-- A run ends where the next element is of another sort. -/
theorem takeWhile_run (hrun : ∀ a ∈ run, p a = true) (hrest : ∀ a ∈ rest.head?, p a = false) :
    (run ++ rest).takeWhile p = run := by
  rw [List.takeWhile_append_of_pos hrun]
  cases rest with
  | nil => simp
  | cons a rest => simp [hrest a rfl]

theorem dropWhile_run (hrun : ∀ a ∈ run, p a = true) (hrest : ∀ a ∈ rest.head?, p a = false) :
    (run ++ rest).dropWhile p = rest := by
  rw [List.dropWhile_append_of_pos hrun]
  cases rest with
  | nil => simp
  | cons a rest => simp [hrest a rfl]

theorem head?_dropWhile_eq_false {as : List α} : ∀ a ∈ (as.dropWhile p).head?, p a = false := by
  intro a ha
  have hnot := List.head?_dropWhile_not p as
  rw [Option.mem_def.mp ha] at hnot
  simpa using hnot

/-- Nothing is left, or first an element that ends what stands in front of it. -/
def StopsAt (stop : α → Bool) (rest : List α) : Prop := ∀ a ∈ rest.head?, stop a = true

theorem stopsAt_nil : StopsAt stop [] := by simp [StopsAt]

theorem stopsAt_cons {a : α} (h : stop a = true) (as : List α) : StopsAt stop (a :: as) := by
  simpa [StopsAt] using h

theorem StopsAt.cases (h : StopsAt stop rest) :
    rest = [] ∨ ∃ a as, rest = a :: as ∧ stop a = true := by
  cases rest with
  | nil => exact Or.inl rfl
  | cons a as => exact Or.inr ⟨a, as, rfl, h a rfl⟩

/-- A run of a sort that no element that stops belongs to reaches as far as the stop. -/
theorem StopsAt.takeWhile_append (h : StopsAt stop rest) (hp : ∀ a, stop a = true → p a = false)
    (hrun : ∀ a ∈ run, p a = true) : (run ++ rest).takeWhile p = run :=
  takeWhile_run hrun fun a ha => hp a (h a ha)

theorem StopsAt.dropWhile_append (h : StopsAt stop rest) (hp : ∀ a, stop a = true → p a = false)
    (hrun : ∀ a ∈ run, p a = true) : (run ++ rest).dropWhile p = rest :=
  dropWhile_run hrun fun a ha => hp a (h a ha)

end TreeFacts.Text
