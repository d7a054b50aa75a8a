import TreeFacts.Entries
import TreeFacts.Tree.Index

namespace TreeFacts

mutual

/-- A node that stands in the given one, then the nodes in its fields, each with the node it stands
in. -/
def Node.visits (parent : Option Node) : Node → List Visit
  | .mk id src kind fields =>
    (parent, .mk id src kind fields) :: Value.visitsInEntries (.mk id src kind fields) fields

/-- The nodes in a value of the enclosing node, each with the node it stands in. -/
def Value.visits (enclosing : Node) : Value → List Visit
  | .node n => n.visits (some enclosing)
  | .list items => Value.visitsInList enclosing items
  | .map entries => Value.visitsInEntries enclosing entries
  | .null | .bool _ | .int _ | .text _ => []

def Value.visitsInList (enclosing : Node) : List Value → List Visit
  | [] => []
  | v :: rest => v.visits enclosing ++ Value.visitsInList enclosing rest

def Value.visitsInEntries (enclosing : Node) : List (String × Value) → List Visit
  | [] => []
  | (_, v) :: rest => v.visits enclosing ++ Value.visitsInEntries enclosing rest

end

/-- The nodes of a forest, tree by tree. -/
def visitsOfRoots (roots : List Node) : List Visit := roots.flatMap (Node.visits none)

mutual

theorem Value.visits_eq (enclosing : Node) :
    ∀ v : Value, v.visits enclosing = v.nodes.flatMap (Node.visits (some enclosing))
  | .node n => by simp only [Value.visits, Value.nodes, List.flatMap_singleton]
  | .list items => by
    simp only [Value.visits, Value.nodes, Value.visitsInList_eq enclosing items]
  | .map entries => by
    simp only [Value.visits, Value.nodes, Value.visitsInEntries_eq enclosing entries]
  | .null | .bool _ | .int _ | .text _ => by
    simp only [Value.visits, Value.nodes, List.flatMap_nil]

theorem Value.visitsInList_eq (enclosing : Node) :
    ∀ items : List Value, Value.visitsInList enclosing items =
      (Value.nodesInList items).flatMap (Node.visits (some enclosing))
  | [] => by simp only [Value.visitsInList, Value.nodesInList, List.flatMap_nil]
  | v :: rest => by
    simp only [Value.visitsInList, Value.nodesInList, List.flatMap_append,
      Value.visits_eq enclosing v, Value.visitsInList_eq enclosing rest]

theorem Value.visitsInEntries_eq (enclosing : Node) :
    ∀ entries : List (String × Value), Value.visitsInEntries enclosing entries =
      (Value.nodesInEntries entries).flatMap (Node.visits (some enclosing))
  | [] => by simp only [Value.visitsInEntries, Value.nodesInEntries, List.flatMap_nil]
  | (_, v) :: rest => by
    simp only [Value.visitsInEntries, Value.nodesInEntries, List.flatMap_append,
      Value.visits_eq enclosing v, Value.visitsInEntries_eq enclosing rest]

end

namespace Node

theorem visits_eq (parent : Option Node) (n : Node) :
    n.visits parent = (parent, n) :: n.children.flatMap (visits (some n)) := by
  cases n
  simp only [visits, children, fields, Value.visitsInEntries_eq]

end Node

/-- The stack holds what is still to be visited. -/
theorem visitAll_eq (stack : List Visit) :
    visitAll stack = stack.flatMap fun v => v.2.visits v.1 := by
  induction stack using visitAll.induct with
  | case1 => simp [visitAll]
  | case2 v stack ih =>
    -- The children of the top are put before the rest, so its whole subtree comes first.
    rw [visitAll, ih, List.flatMap_append, List.flatMap_cons, Node.visits_eq, Visit.children,
      List.flatMap_map, List.cons_append]

theorem walk_eq (root : Node) : root.walk = root.visits none := by
  simp [Node.walk, visitAll_eq]

theorem walkAll_eq (roots : List Node) : walkAll roots = visitsOfRoots roots := by
  unfold walkAll visitsOfRoots
  congr 1
  funext root
  exact walk_eq root

theorem mem_visitAll {v : Visit} {stack : List Visit} (h : v ∈ stack) : v ∈ visitAll stack := by
  rw [visitAll_eq]
  refine List.mem_flatMap.mpr ⟨v, h, ?_⟩
  rw [Node.visits_eq]
  exact List.mem_cons_self

theorem children_mem_visitAll {stack : List Visit} {v w : Visit} (hv : v ∈ visitAll stack)
    (hw : w ∈ v.children) : w ∈ visitAll stack := by
  induction stack using visitAll.induct with
  | case1 => simp [visitAll] at hv
  | case2 top stack ih =>
    rw [visitAll] at hv ⊢
    refine List.mem_cons_of_mem _ ?_
    rcases List.mem_cons.mp hv with rfl | hv
    · exact mem_visitAll (List.mem_append_left _ hw)
    · exact ih hv

theorem mem_stack_or_child {stack : List Visit} {v : Visit} (hv : v ∈ visitAll stack) :
    v ∈ stack ∨ ∃ w ∈ visitAll stack, v ∈ w.children := by
  induction stack using visitAll.induct with
  | case1 => simp [visitAll] at hv
  | case2 top stack ih =>
    rw [visitAll] at hv ⊢
    rcases List.mem_cons.mp hv with rfl | hv
    · exact Or.inl List.mem_cons_self
    · rcases ih hv with hmem | ⟨w, hw, hchild⟩
      · rcases List.mem_append.mp hmem with hchild | hstack
        · exact Or.inr ⟨top, List.mem_cons_self, hchild⟩
        · exact Or.inl (List.mem_cons_of_mem _ hstack)
      · exact Or.inr ⟨w, List.mem_cons_of_mem _ hw, hchild⟩

/-- Whatever stands in a field of a visited node is visited. -/
theorem child_mem_visitsOfRoots {roots : List Node} {v : Visit} (hv : v ∈ visitsOfRoots roots)
    {child : Node} (hc : child ∈ v.2.children) : (some v.2, child) ∈ visitsOfRoots roots := by
  rw [← walkAll_eq] at hv ⊢
  obtain ⟨root, hroot, hv⟩ := List.mem_flatMap.mp hv
  exact List.mem_flatMap.mpr ⟨root, hroot,
    children_mem_visitAll hv (List.mem_map.mpr ⟨child, hc, rfl⟩)⟩

/-- A node that another stands in is visited too. -/
theorem parent_mem_visitsOfRoots {roots : List Node} {parent n : Node}
    (h : (some parent, n) ∈ visitsOfRoots roots) : ∃ v ∈ visitsOfRoots roots, v.2 = parent := by
  rw [← walkAll_eq] at h ⊢
  obtain ⟨root, hroot, h⟩ := List.mem_flatMap.mp h
  rcases mem_stack_or_child h with hstack | ⟨w, hw, hchild⟩
  · simp at hstack
  · obtain ⟨child, -, heq⟩ := List.mem_map.mp hchild
    cases heq
    exact ⟨w, List.mem_flatMap.mpr ⟨root, hroot, hw⟩, rfl⟩

theorem Value.mem_nodesInList {n : Node} {items : List Value} :
    n ∈ nodesInList items ↔ ∃ v ∈ items, n ∈ v.nodes := by
  induction items with
  | nil => simp [nodesInList]
  | cons v rest ih => simp [nodesInList, ih]

theorem Value.mem_nodesInEntries {n : Node} {entries : List (String × Value)} :
    n ∈ nodesInEntries entries ↔ ∃ e ∈ entries, n ∈ e.2.nodes := by
  induction entries with
  | nil => simp [nodesInEntries]
  | cons e rest ih =>
    obtain ⟨key, v⟩ := e
    simp [nodesInEntries, ih]

theorem Node.mem_children_of_field? {n a : Node} {field : String} {v : Value}
    (h : n.field? field = some v) (ha : a ∈ v.nodes) : a ∈ n.children :=
  Value.mem_nodesInEntries.mpr ⟨(field, v), Entries.mem_of_lookup h, ha⟩

theorem Node.size_lt_of_mem_children {n a : Node} (h : a ∈ n.children) : a.size < n.size := by
  obtain ⟨front, back, hsplit⟩ := List.append_of_mem h
  rw [n.size_eq, hsplit, List.map_append, List.map_cons, Value.sizeInList_append, Value.sizeInList,
    Value.size]
  omega

/-- All nodes of a forest. -/
def nodesOfRoots (roots : List Node) : List Node := (visitsOfRoots roots).map (·.2)

theorem child_mem_nodesOfRoots {roots : List Node} {n a : Node} (hn : n ∈ nodesOfRoots roots)
    (ha : a ∈ n.children) : a ∈ nodesOfRoots roots := by
  obtain ⟨v, hv, rfl⟩ := List.mem_map.mp hn
  exact List.mem_map.mpr ⟨_, child_mem_visitsOfRoots hv ha, rfl⟩

end TreeFacts
