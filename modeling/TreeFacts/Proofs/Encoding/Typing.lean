import TreeFacts.Proofs.Encoding.Field

namespace TreeFacts

namespace FieldShape

/-- The columns between the identifier of a node and the cell. -/
def leading : FieldShape → FieldTypes
  | map => [("key", .symbol)]
  | _ => []

def trailing : FieldShape → FieldTypes
  | optional => [("present", .bool)]
  | array => [("index", .number)]
  | sparseArray => [("index", .number), ("rawIndex", .number)]
  | scalar | map | recordList => []

end FieldShape

namespace FieldProjection

variable {p : FieldProjection} {c : FieldContext} {id : FactValue}

def cellColumn (p : FieldProjection) : String :=
  if p.isReference && p.shape != .recordList then "childId" else "value"

theorem columns_toRelation (p : FieldProjection) (idType : ColumnType) :
    (p.toRelation idType).columns =
      ("id", idType) :: (p.shape.leading ++ (p.cellColumn, p.valueType) :: p.shape.trailing) := by
  unfold toRelation cellColumn
  cases p.shape <;> simp [FieldShape.leading, FieldShape.trailing]

theorem marks_haveTypes (r : Registry) {v : Value} {slot : Slot} (h : slot ∈ p.slots v) :
    HaveTypes r slot.before p.shape.leading ∧ HaveTypes r slot.after p.shape.trailing := by
  have hindex (n : Nat) : HasType r (indexValue n) .number :=
    FactValue.hasType_number (Registry.classify_number r) (Or.inl rfl) _
  have hpresent (b : Bool) : HasType r (.ofBool b) .bool :=
    FactValue.hasType_number (Registry.classify_bool r) (Or.inr (Or.inl rfl)) _
  have hkey (s : String) : HasType r (.symbol s) .symbol :=
    FactValue.hasType_symbol (Registry.classify_symbol r) s
  unfold slots at h
  cases hs : p.shape with
  | scalar | recordList =>
    simp only [hs, List.mem_singleton] at h
    subst h
    simp [FieldShape.leading, FieldShape.trailing, HaveTypes]
  | optional =>
    simp only [hs, List.mem_singleton] at h
    subst h
    simp [FieldShape.leading, FieldShape.trailing, HaveTypes, hpresent]
  | array =>
    simp only [hs] at h
    obtain ⟨e, -, rfl⟩ := List.mem_map.mp h
    simp [FieldShape.leading, FieldShape.trailing, HaveTypes, hindex]
  | sparseArray =>
    simp only [hs] at h
    obtain ⟨e, -, rfl⟩ := List.mem_map.mp h
    simp [FieldShape.leading, FieldShape.trailing, HaveTypes, hindex]
  | map =>
    simp only [hs] at h
    obtain ⟨e, -, h⟩ := List.mem_flatMap.mp h
    obtain ⟨target, -, rfl⟩ := List.mem_map.mp h
    simp [FieldShape.leading, FieldShape.trailing, HaveTypes, hkey]

/-- The cell of a record list is a list of what its elements stand for. -/
theorem cell_eq_ok_of_recordList (hf : p.Fits c.registry) (hs : p.shape = .recordList) {v : Value}
    {w : FactValue} (h : p.cell c v = .ok w) :
    ∃ element ws, c.registry.IsListOf p.valueType element ∧
      c.registry.classify element = .ok p.semantic.valueClass ∧
      List.Forall₂ (fun item w => p.semantic.content? item = some w) v.items ws ∧
      w = .ofList ws := by
  obtain ⟨element, hl, hc⟩ := hf.list hs
  simp only [cell, hs, hl.2] at h
  obtain ⟨ws, hws, rfl⟩ := map_eq_ok.mp h
  exact ⟨element, ws, hl, hc,
    (mapM_eq_ok.mp hws).imp fun item w hw => FieldContext.element_eq_ok hc hw, rfl⟩

/-- A cell in other shapes is what its value stands for, if there is one. -/
theorem cell_eq_ok (hf : p.Fits c.registry) (hs : p.shape ≠ .recordList) {v : Value}
    {w : FactValue} (h : p.cell c v = .ok w) :
    (v.isNull = true ∧ w = p.semantic.absent) ∨ p.semantic.content? v = some w := by
  have hc := hf.value hs
  cases hshape : p.shape with
  | scalar | optional =>
    simp only [cell, hshape] at h
    split at h
    next hnull =>
      rw [FieldContext.sentinel_eq hc] at h
      cases h
      exact Or.inl ⟨hnull, rfl⟩
    next => exact Or.inr (FieldContext.element_eq_ok hc h)
  | recordList => exact absurd hshape hs
  | array | sparseArray | map =>
    simp only [cell, hshape] at h
    exact Or.inr (FieldContext.element_eq_ok hc h)

theorem cell_hasType (hf : p.Fits c.registry) {v : Value} {w : FactValue}
    (h : p.cell c v = .ok w) : HasType c.registry w p.valueType := by
  by_cases hs : p.shape = .recordList
  · obtain ⟨element, ws, hl, hc, hws, rfl⟩ := cell_eq_ok_of_recordList hf hs h
    refine FactValue.hasType_ofList hl ?_
    intro w hw
    obtain ⟨item, -, hitem⟩ := exists_of_forall₂ hws hw
    exact SemanticType.content?_hasType hc hitem
  · rcases cell_eq_ok hf hs h with ⟨-, rfl⟩ | hcontent
    · exact SemanticType.absent_hasType (hf.value hs)
    · exact SemanticType.content?_hasType (hf.value hs) hcontent

theorem fills_haveTypes (hf : p.Fits c.registry) {idType : ColumnType}
    (hid : HasType c.registry id idType) {v : Value} {slot : Slot} (hslot : slot ∈ p.slots v)
    {t : Tuple} (h : p.Fills c id slot t) :
    HaveTypes c.registry t (p.toRelation idType).columns := by
  obtain ⟨w, hw, rfl⟩ := h
  obtain ⟨hbefore, hafter⟩ := marks_haveTypes c.registry hslot
  rw [columns_toRelation]
  simp only [HaveTypes]
  refine ⟨hid, haveTypes_append hbefore ?_⟩
  simp only [HaveTypes]
  exact ⟨cell_hasType hf hw, hafter⟩

theorem items_eq_error {v : Value} {e : Error} (h : c.items v = .error e) :
    ∃ f, e = c.fault f := by
  cases v <;> cases h <;> exact ⟨_, rfl⟩

theorem entries_eq_error {v : Value} {e : Error} (h : c.entries v = .error e) :
    ∃ f, e = c.fault f := by
  cases v <;> cases h <;> exact ⟨_, rfl⟩

theorem arrayTuples_eq_error (hc : c.registry.classify p.valueType = .ok p.semantic.valueClass)
    {items : List Value} {index : Nat} {e : Error}
    (h : arrayTuples p c id index items = .error e) : ∃ f, e = c.fault f := by
  induction items generalizing index with
  | nil => cases h
  | cons v rest ih =>
    unfold arrayTuples at h
    split at h
    next =>
      cases h
      exact ⟨_, rfl⟩
    next =>
      rcases bind_eq_error.mp h with h | ⟨w, -, h⟩
      · exact FieldContext.element_eq_error hc h
      · rcases bind_eq_error.mp h with h | ⟨ts, -, h⟩
        · exact ih h
        · cases h

theorem sparseTuples_eq_error (hc : c.registry.classify p.valueType = .ok p.semantic.valueClass)
    {items : List Value} {index rawIndex : Nat} {e : Error}
    (h : sparseTuples p c id index rawIndex items = .error e) : ∃ f, e = c.fault f := by
  induction items generalizing index rawIndex with
  | nil => cases h
  | cons v rest ih =>
    unfold sparseTuples at h
    split at h
    next => exact ih h
    next =>
      rcases bind_eq_error.mp h with h | ⟨w, -, h⟩
      · exact FieldContext.element_eq_error hc h
      · rcases bind_eq_error.mp h with h | ⟨ts, -, h⟩
        · exact ih h
        · cases h

theorem entryTuples_eq_error (hc : c.registry.classify p.valueType = .ok p.semantic.valueClass)
    {entry : String × Value} {e : Error} (h : entryTuples p c id entry = .error e) :
    ∃ f, e = c.fault f := by
  obtain ⟨target, -, htarget⟩ := mapM_eq_error h
  rcases bind_eq_error.mp htarget with h | ⟨w, -, h⟩
  · exact FieldContext.element_eq_error hc h
  · cases h

theorem tuples_eq_error (hf : p.Fits c.registry) {v : Value} {e : Error}
    (h : p.tuples c id v = .error e) : ∃ f, e = c.fault f := by
  cases hs : p.shape with
  | scalar | optional =>
    have hc := hf.value (by simp [hs])
    simp only [tuples, hs] at h
    split at h
    next =>
      rw [FieldContext.sentinel_eq hc] at h
      cases h
    next =>
      rcases bind_eq_error.mp h with h | ⟨w, -, h⟩
      · exact FieldContext.element_eq_error hc h
      · cases h
  | array =>
    have hc := hf.value (by simp [hs])
    simp only [tuples, hs] at h
    rcases bind_eq_error.mp h with h | ⟨items, -, h⟩
    · exact items_eq_error h
    · exact arrayTuples_eq_error hc h
  | sparseArray =>
    have hc := hf.value (by simp [hs])
    simp only [tuples, hs] at h
    rcases bind_eq_error.mp h with h | ⟨items, -, h⟩
    · exact items_eq_error h
    · exact sparseTuples_eq_error hc h
  | map =>
    have hc := hf.value (by simp [hs])
    simp only [tuples, hs] at h
    rcases bind_eq_error.mp h with h | ⟨entries, -, h⟩
    · exact entries_eq_error h
    · rcases bind_eq_error.mp h with h | ⟨tss, -, h⟩
      · obtain ⟨entry, -, hentry⟩ := mapM_eq_error h
        exact entryTuples_eq_error hc hentry
      · cases h
  | recordList =>
    obtain ⟨element, hl, hc⟩ := hf.list hs
    simp only [tuples, hs, hl.2] at h
    rcases bind_eq_error.mp h with h | ⟨items, -, h⟩
    · exact items_eq_error h
    · rcases bind_eq_error.mp h with h | ⟨ws, -, h⟩
      · obtain ⟨item, -, hitem⟩ := mapM_eq_error h
        exact FieldContext.element_eq_error hc hitem
      · cases h

end FieldProjection

end TreeFacts
