import TreeFacts.Proofs.Encoding.Element
import TreeFacts.Schema.Basic

namespace TreeFacts

/-- The elements of a list; nothing else has any. -/
def Value.items : Value → List Value
  | .list items => items
  | _ => []

def Value.entries : Value → List (String × Value)
  | .map entries => entries
  | _ => []

/-- The value of a field. A field that is not there counts as null. -/
def Node.value (n : Node) (field : String) : Value := (n.field? field).getD .null

/-- One tuple of a field: the value its cell is made from, and what stands between the identifier of
the node and the cell and behind the cell. -/
structure Slot where
  before : List FactValue
  value : Value
  after : List FactValue

namespace FieldProjection

/-- The tuples that a field has, in order: one, or one per element, element that is not null or entry.
References under one key of a map have one each. -/
def slots (p : FieldProjection) (v : Value) : List Slot :=
  match p.shape with
  | .scalar | .recordList => [⟨[], v, []⟩]
  | .optional => [⟨[], v, [.ofBool (!v.isNull)]⟩]
  | .array => v.items.zipIdx.map fun (w, index) => ⟨[], w, [indexValue index]⟩
  | .sparseArray =>
    (v.items.zipIdx.filter fun e => !e.1.isNull).zipIdx.map fun ((w, rawIndex), index) =>
      ⟨[], w, [indexValue index, indexValue rawIndex]⟩
  | .map =>
    v.entries.flatMap fun (key, w) =>
      (p.entryValues w).map fun target => ⟨[.symbol (sanitize key)], target, []⟩

/-- The cell made from a value: the element it is, what stands for an absent one, or a list. -/
def cell (p : FieldProjection) (c : FieldContext) (v : Value) : Except Error FactValue :=
  match p.shape with
  | .scalar | .optional =>
    if v.isNull then c.sentinel p.valueType else c.element p.semantic p.valueType v
  | .recordList =>
    match c.registry.record? p.valueType.name with
    | some ((_, head) :: _) => (v.items.mapM (c.element p.semantic head)).map .ofList
    | _ => .error (c.fault (.noListType p.valueType))
  | .array | .sparseArray | .map => c.element p.semantic p.valueType v

def Fills (p : FieldProjection) (c : FieldContext) (id : FactValue) (slot : Slot) (t : Tuple) :
    Prop :=
  ∃ w, p.cell c slot.value = .ok w ∧ t = id :: (slot.before ++ w :: slot.after)

variable {p : FieldProjection} {c : FieldContext} {id : FactValue}

theorem arrayTuples_fills (hs : p.shape = .array) {items : List Value} {index : Nat}
    {ts : List Tuple} (h : arrayTuples p c id index items = .ok ts) :
    List.Forall₂ (p.Fills c id)
      ((items.zipIdx index).map fun (w, index) => ⟨[], w, [indexValue index]⟩) ts := by
  induction items generalizing index ts with
  | nil =>
    cases h
    exact .nil
  | cons v rest ih =>
    unfold arrayTuples at h
    split at h
    next => cases h
    next =>
      obtain ⟨w, hw, h⟩ := bind_eq_ok.mp h
      obtain ⟨ts', hrest, h⟩ := bind_eq_ok.mp h
      cases h
      refine .cons ⟨w, ?_, rfl⟩ (ih hrest)
      simp only [cell, hs, hw]

theorem sparseTuples_fills (hs : p.shape = .sparseArray) {items : List Value}
    {index rawIndex : Nat} {ts : List Tuple}
    (h : sparseTuples p c id index rawIndex items = .ok ts) :
    List.Forall₂ (p.Fills c id)
      ((((items.zipIdx rawIndex).filter fun e => !e.1.isNull).zipIdx index).map
        fun ((w, rawIndex), index) => ⟨[], w, [indexValue index, indexValue rawIndex]⟩) ts := by
  induction items generalizing index rawIndex ts with
  | nil =>
    cases h
    exact .nil
  | cons v rest ih =>
    unfold sparseTuples at h
    split at h
    next hnull =>
      rw [List.zipIdx_cons, List.filter_cons_of_neg (by simp [hnull])]
      exact ih h
    next hnull =>
      obtain ⟨w, hw, h⟩ := bind_eq_ok.mp h
      obtain ⟨ts', hrest, h⟩ := bind_eq_ok.mp h
      cases h
      rw [List.zipIdx_cons, List.filter_cons_of_pos (by simp [hnull])]
      refine .cons ⟨w, ?_, rfl⟩ (ih hrest)
      simp only [cell, hs, hw]

theorem entryTuples_fills (hs : p.shape = .map) {key : String} {v : Value} {ts : List Tuple}
    (h : entryTuples p c id (key, v) = .ok ts) :
    List.Forall₂ (p.Fills c id)
      ((p.entryValues v).map fun target => ⟨[.symbol (sanitize key)], target, []⟩) ts := by
  refine List.forall₂_map_left_iff.mpr ((mapM_eq_ok.mp h).imp ?_)
  intro target t ht
  obtain ⟨w, hw, heq⟩ := bind_eq_ok.mp ht
  cases heq
  refine ⟨w, ?_, rfl⟩
  simp only [cell, hs, hw]

theorem items_eq_ok {v : Value} {items : List Value} (h : c.items v = .ok items) :
    items = v.items := by
  cases v <;> cases h <;> rfl

theorem entries_eq_ok {v : Value} {entries : List (String × Value)}
    (h : c.entries v = .ok entries) : entries = v.entries := by
  cases v <;> cases h <;> rfl

theorem scalar_fills (hs : p.shape = .scalar) {v : Value} {ts : List Tuple}
    (h : p.tuples c id v = .ok ts) : List.Forall₂ (p.Fills c id) (p.slots v) ts := by
  have heq : p.tuples c id v = (p.cell c v).map fun w => [[id, w]] := by
    simp only [tuples, cell, hs]
    split <;> rfl
  obtain ⟨w, hw, rfl⟩ := map_eq_ok.mp (heq ▸ h)
  simp only [slots, hs]
  exact .cons ⟨w, hw, rfl⟩ .nil

theorem optional_fills (hs : p.shape = .optional) {v : Value} {ts : List Tuple}
    (h : p.tuples c id v = .ok ts) : List.Forall₂ (p.Fills c id) (p.slots v) ts := by
  have heq : p.tuples c id v = (p.cell c v).map fun w => [[id, w, .ofBool (!v.isNull)]] := by
    cases hnull : v.isNull <;> simp only [tuples, cell, hs, hnull] <;> rfl
  obtain ⟨w, hw, rfl⟩ := map_eq_ok.mp (heq ▸ h)
  simp only [slots, hs]
  exact .cons ⟨w, hw, rfl⟩ .nil

theorem map_fills (hs : p.shape = .map) {v : Value} {ts : List Tuple}
    (h : p.tuples c id v = .ok ts) : List.Forall₂ (p.Fills c id) (p.slots v) ts := by
  simp only [tuples, hs] at h
  obtain ⟨entries, hentries, h⟩ := bind_eq_ok.mp h
  obtain ⟨tss, htss, h⟩ := bind_eq_ok.mp h
  cases h
  simp only [slots, hs, ← entries_eq_ok hentries]
  have hall : List.Forall₂ (List.Forall₂ (p.Fills c id))
      (entries.map fun e =>
        (p.entryValues e.2).map fun target => ⟨[.symbol (sanitize e.1)], target, []⟩) tss :=
    List.forall₂_map_left_iff.mpr ((mapM_eq_ok.mp htss).imp fun e ts he => entryTuples_fills hs he)
  exact List.rel_flatten hall

theorem recordList_fills (hs : p.shape = .recordList) {v : Value} {ts : List Tuple}
    (h : p.tuples c id v = .ok ts) : List.Forall₂ (p.Fills c id) (p.slots v) ts := by
  simp only [tuples, hs] at h
  split at h
  next head rest hrecord =>
    obtain ⟨items, hitems, h⟩ := bind_eq_ok.mp h
    obtain ⟨ws, hws, h⟩ := bind_eq_ok.mp h
    cases h
    simp only [slots, hs]
    refine .cons ⟨.ofList ws, ?_, rfl⟩ .nil
    rw [items_eq_ok hitems] at hws
    simp only [cell, hs, hrecord, hws, map_ok]
  next => cases h

/-- The tuples of a field are made from its slots, one from each, in order. -/
theorem tuples_fills {v : Value} {ts : List Tuple} (h : p.tuples c id v = .ok ts) :
    List.Forall₂ (p.Fills c id) (p.slots v) ts := by
  cases hs : p.shape with
  | scalar => exact scalar_fills hs h
  | optional => exact optional_fills hs h
  | array =>
    simp only [tuples, hs] at h
    obtain ⟨items, hitems, h⟩ := bind_eq_ok.mp h
    simp only [slots, hs, ← items_eq_ok hitems]
    exact arrayTuples_fills hs h
  | sparseArray =>
    simp only [tuples, hs] at h
    obtain ⟨items, hitems, h⟩ := bind_eq_ok.mp h
    simp only [slots, hs, ← items_eq_ok hitems]
    exact sparseTuples_fills hs h
  | map => exact map_fills hs h
  | recordList => exact recordList_fills hs h

end FieldProjection

end TreeFacts
