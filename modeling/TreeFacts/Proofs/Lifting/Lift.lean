import TreeFacts.Lifting.Lift
import TreeFacts.Proofs.Types.Registry

namespace TreeFacts

namespace Lifter

variable {l : Lifter} {type element : ColumnType}

theorem lift_number (hc : l.registry.classify type = .ok .number) (n : Int64) :
    l.lift (.number n) type = .ok (.number n) := by
  simp only [lift, hc, ok_bind, liftAtom]

theorem lift_bool (hc : l.registry.classify type = .ok .bool) (n : Int64) :
    l.lift (.number n) type = .ok (.bool (n = 1)) := by
  simp only [lift, hc, ok_bind, liftAtom]

theorem lift_identifier (hc : l.registry.classify type = .ok .nodeId) (n : NodeId) :
    l.lift (.number n) type = l.liftReference n := by
  simp only [lift, hc, ok_bind, liftAtom]

theorem lift_symbol (hc : l.registry.classify type = .ok .symbol) (s : String) :
    l.lift (.symbol s) type = .ok (.text s) := by
  simp only [lift, hc, ok_bind, liftAtom]

theorem liftReference_of_get? {id : NodeId} (hid : id ≠ absentId) {n : Node}
    (h : l.nodes.get? id = some n) : l.liftReference id = .ok (.node n) := by
  rw [liftReference, if_neg hid, h]

theorem liftReference_of_get?_none {id : NodeId} (hid : id ≠ absentId)
    (h : l.nodes.get? id = none) : l.liftReference id = .error (.danglingReference id) := by
  rw [liftReference, if_neg hid, h]

theorem isConsList_of_isListOf (hl : l.registry.IsListOf type element) :
    l.registry.isConsList type.name = true := by
  obtain ⟨name, rfl⟩ : ∃ name, type = .named name := by
    cases type with
    | named name => exact ⟨name, rfl⟩
    | number =>
      have hc := hl.1
      rw [Registry.classify_number] at hc
      cases hc
    | symbol =>
      have hc := hl.1
      rw [Registry.classify_symbol] at hc
      cases hc
  simp only [Registry.isConsList, hl.2, Option.bind_some, List.getLast?_cons_cons,
    List.getLast?_singleton]
  exact beq_self_eq_true _

theorem liftCell_ofList (name : String) (w : FactValue) (ws : List FactValue) :
    l.liftCell name element [w, .ofList ws] = (w :: ws).mapM fun v => l.lift v element := by
  induction ws generalizing w with
  | nil =>
    simp only [FactValue.ofList, List.foldr_nil, liftCell, List.mapM_cons, List.mapM_nil]
    cases l.lift w element <;> rfl
  | cons next ws ih =>
    have hrest : l.liftCell name element [next, FactValue.ofList ws] =
        (next :: ws).mapM fun v => l.lift v element := ih next
    have hcell : FactValue.ofList (next :: ws) = .record [next, FactValue.ofList ws] := rfl
    have hall : (w :: next :: ws).mapM (fun v => l.lift v element) = (do
        let head ← l.lift w element
        let rest ← (next :: ws).mapM fun v => l.lift v element
        pure (head :: rest)) := List.mapM_cons
    rw [hcell, liftCell, hrest, hall]

/-- A chain of cells is lifted to the list of its lifted elements. -/
theorem lift_ofList (hl : l.registry.IsListOf type element) (ws : List FactValue) :
    l.lift (.ofList ws) type = (ws.mapM fun w => l.lift w element).map .list := by
  have hcons := isConsList_of_isListOf hl
  cases ws with
  | nil =>
    simp only [FactValue.ofList, List.foldr_nil, lift, hl.1, ok_bind, liftAtom, hl.2, hcons,
      if_true, List.mapM_nil, pure_eq_ok, map_ok]
  | cons w ws =>
    have hcell : FactValue.ofList (w :: ws) = .record [w, FactValue.ofList ws] := rfl
    rw [hcell]
    simp only [lift, hl.1, ok_bind, hl.2, hcons, if_true, List.head?_cons, Option.map_some,
      Option.getD_some]
    rw [liftCell_ofList]

end Lifter

end TreeFacts
