namespace TreeFacts

/-- With enough steps allowed, a run ends with the given outcome. -/
def Ends {α : Type} (run : Nat → Option α) (outcome : α) : Prop :=
  ∃ bound, ∀ steps, bound ≤ steps → run steps = some outcome

theorem Ends.unique {α : Type} {run : Nat → Option α} {a b : α} (ha : Ends run a)
    (hb : Ends run b) : a = b := by
  obtain ⟨m, hm⟩ := ha
  obtain ⟨n, hn⟩ := hb
  have hsame := (hm (max m n) (Nat.le_max_left m n)).symm.trans (hn _ (Nat.le_max_right m n))
  exact Option.some.inj hsame

theorem Ends.bind {α β : Type} {run : Nat → Option α} {a : α} {next : Nat → α → Option β} {b : β}
    (ha : Ends run a) (hb : Ends (next · a) b) :
    Ends (fun steps => (run steps).bind (next steps)) b := by
  obtain ⟨m, hm⟩ := ha
  obtain ⟨n, hn⟩ := hb
  refine ⟨max m n, fun steps hsteps => ?_⟩
  have hrun : run steps = some a := hm steps (by omega)
  show (run steps).bind (next steps) = some b
  rw [hrun]
  exact hn steps (by omega)

theorem ends_const {α : Type} {o : Option α} {a : α} (h : o = some a) : Ends (fun _ => o) a :=
  ⟨0, fun _ _ => h⟩

theorem ends_succ {α : Type} {run : Nat → Option α} {a : α}
    (h : Ends (fun steps => run (steps + 1)) a) : Ends run a := by
  obtain ⟨n, hn⟩ := h
  refine ⟨n + 1, fun steps hsteps => ?_⟩
  obtain ⟨fewer, rfl⟩ : ∃ fewer, steps = fewer + 1 := ⟨steps - 1, by omega⟩
  exact hn fewer (by omega)

end TreeFacts
