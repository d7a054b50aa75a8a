import TreeFacts.Proofs.Encoding.Field
import TreeFacts.Proofs.Tree.Walk

namespace TreeFacts

namespace Value

theorem mem_nodes_of_mem_items {v item : Value} (hi : item ∈ v.items) {n : Node}
    (hn : n ∈ item.nodes) : n ∈ v.nodes := by
  cases v with
  | list items =>
    rw [nodes]
    exact mem_nodesInList.mpr ⟨item, hi, hn⟩
  | null | bool _ | int _ | text _ | node _ | map _ => simp [items] at hi

theorem mem_nodes_of_mem_entries {v : Value} {e : String × Value} (he : e ∈ v.entries) {n : Node}
    (hn : n ∈ e.2.nodes) : n ∈ v.nodes := by
  cases v with
  | map entries =>
    rw [nodes]
    exact mem_nodesInEntries.mpr ⟨e, he, hn⟩
  | null | bool _ | int _ | text _ | node _ | list _ => simp [entries] at he

end Value

theorem Node.mem_children_of_value {n child : Node} {field : String}
    (h : child ∈ (n.value field).nodes) : child ∈ n.children := by
  unfold Node.value at h
  cases hfield : n.field? field with
  | none =>
    rw [hfield] at h
    simp [Value.nodes] at h
  | some v =>
    rw [hfield, Option.getD_some] at h
    exact mem_children_of_field? hfield h

namespace FieldProjection

variable {p : FieldProjection}

theorem mem_nodes_of_mem_entryValues {v target : Value} (ht : target ∈ p.entryValues v) {n : Node}
    (hn : n ∈ target.nodes) : n ∈ v.nodes := by
  have hself : ∀ w : Value, target ∈ [w] → n ∈ w.nodes := by
    intro w hw
    rwa [← List.mem_singleton.mp hw]
  cases v with
  | list targets =>
    simp only [entryValues] at ht
    split at ht
    next => exact Value.mem_nodes_of_mem_items ht hn
    next => exact hself _ ht
  | null | bool _ | int _ | text _ | node _ | map _ => exact hself _ ht

/-- The nodes that the cells of a field are made from stand in the field. -/
theorem mem_nodes_of_mem_slots {v : Value} {slot : Slot} (hs : slot ∈ p.slots v) {n : Node}
    (hn : n ∈ slot.value.nodes) : n ∈ v.nodes := by
  unfold slots at hs
  cases hshape : p.shape with
  | scalar | recordList | optional =>
    simp only [hshape, List.mem_singleton] at hs
    subst hs
    exact hn
  | array =>
    simp only [hshape] at hs
    obtain ⟨⟨w, index⟩, hw, rfl⟩ := List.mem_map.mp hs
    exact Value.mem_nodes_of_mem_items (List.fst_mem_of_mem_zipIdx hw) hn
  | sparseArray =>
    simp only [hshape] at hs
    obtain ⟨⟨⟨w, rawIndex⟩, index⟩, hw, rfl⟩ := List.mem_map.mp hs
    have hfilter := (List.mem_filter.mp (List.fst_mem_of_mem_zipIdx hw)).1
    exact Value.mem_nodes_of_mem_items (List.fst_mem_of_mem_zipIdx hfilter) hn
  | map =>
    simp only [hshape] at hs
    obtain ⟨⟨key, w⟩, hw, hs⟩ := List.mem_flatMap.mp hs
    obtain ⟨target, ht, rfl⟩ := List.mem_map.mp hs
    exact Value.mem_nodes_of_mem_entries hw (mem_nodes_of_mem_entryValues ht hn)

end FieldProjection

end TreeFacts
