import TreeFacts.Entries
import TreeFacts.Tree.Index

namespace TreeFacts

mutual

/-- Replaces the nodes that are embedded in a value, and nothing around them. -/
def Value.mapNodes (f : Node → Node) : Value → Value
  | .node n => .node (f n)
  | .list items => .list (Value.mapNodesInList f items)
  | .map entries => .map (Value.mapNodesInEntries f entries)
  | .null => .null
  | .bool b => .bool b
  | .int n => .int n
  | .text s => .text s

def Value.mapNodesInList (f : Node → Node) : List Value → List Value
  | [] => []
  | v :: rest => v.mapNodes f :: Value.mapNodesInList f rest

def Value.mapNodesInEntries (f : Node → Node) : List (String × Value) → List (String × Value)
  | [] => []
  | (key, v) :: rest => (key, v.mapNodes f) :: Value.mapNodesInEntries f rest

end

/-- Replaces the children of a node, each in its place. -/
def Node.mapChildren (f : Node → Node) (n : Node) : Node :=
  .mk n.id n.src n.kind (Value.mapNodesInEntries f n.fields)

namespace Value

variable {f : Node → Node}

theorem mapNodesInEntries_eq_map (entries : List (String × Value)) :
    mapNodesInEntries f entries = entries.map fun e => (e.1, e.2.mapNodes f) := by
  induction entries with
  | nil => rfl
  | cons e rest ih => rw [mapNodesInEntries, ih, List.map_cons]

theorem lookup_mapNodesInEntries (entries : List (String × Value)) (key : String) :
    (mapNodesInEntries f entries).lookup key = (entries.lookup key).map (mapNodes f) := by
  rw [mapNodesInEntries_eq_map]
  exact Entries.lookup_map_keys (f := id) (fun _ _ => id) (mapNodes f) entries key

theorem mapNodesInEntries_insert (key : String) (v : Value) (entries : Entries Value) :
    mapNodesInEntries f (Entries.insert key v entries) =
      Entries.insert key (v.mapNodes f) (mapNodesInEntries f entries) := by
  rw [mapNodesInEntries_eq_map, mapNodesInEntries_eq_map, Entries.insert_map]

mutual

theorem nodes_mapNodes (f : Node → Node) : ∀ v : Value, (v.mapNodes f).nodes = v.nodes.map f
  | .node n => by simp only [mapNodes, nodes, List.map_singleton]
  | .list items => by simp only [mapNodes, nodes, nodesInList_mapNodes f items]
  | .map entries => by simp only [mapNodes, nodes, nodesInEntries_mapNodes f entries]
  | .null | .bool _ | .int _ | .text _ => by simp only [mapNodes, nodes, List.map_nil]

theorem nodesInList_mapNodes (f : Node → Node) : ∀ items : List Value,
    nodesInList (mapNodesInList f items) = (nodesInList items).map f
  | [] => by simp only [mapNodesInList, nodesInList, List.map_nil]
  | v :: rest => by
    simp only [mapNodesInList, nodesInList, List.map_append, nodes_mapNodes f v,
      nodesInList_mapNodes f rest]

theorem nodesInEntries_mapNodes (f : Node → Node) : ∀ entries : List (String × Value),
    nodesInEntries (mapNodesInEntries f entries) = (nodesInEntries entries).map f
  | [] => by simp only [mapNodesInEntries, nodesInEntries, List.map_nil]
  | (_, v) :: rest => by
    simp only [mapNodesInEntries, nodesInEntries, List.map_append, nodes_mapNodes f v,
      nodesInEntries_mapNodes f rest]

end

mutual

theorem mapNodes_of_nodes_eq_nil (f : Node → Node) : ∀ v : Value, v.nodes = [] → v.mapNodes f = v
  | .node n, h => by cases h
  | .list items, h => by rw [mapNodes, mapNodesInList_of_nodes_eq_nil f items h]
  | .map entries, h => by rw [mapNodes, mapNodesInEntries_of_nodes_eq_nil f entries h]
  | .null, _ | .bool _, _ | .int _, _ | .text _, _ => rfl

theorem mapNodesInList_of_nodes_eq_nil (f : Node → Node) : ∀ items : List Value,
    nodesInList items = [] → mapNodesInList f items = items
  | [], _ => rfl
  | v :: rest, h => by
    obtain ⟨hv, hrest⟩ := List.append_eq_nil_iff.mp h
    rw [mapNodesInList, mapNodes_of_nodes_eq_nil f v hv,
      mapNodesInList_of_nodes_eq_nil f rest hrest]

theorem mapNodesInEntries_of_nodes_eq_nil (f : Node → Node) : ∀ entries : List (String × Value),
    nodesInEntries entries = [] → mapNodesInEntries f entries = entries
  | [], _ => rfl
  | (_, v) :: rest, h => by
    obtain ⟨hv, hrest⟩ := List.append_eq_nil_iff.mp h
    rw [mapNodesInEntries, mapNodes_of_nodes_eq_nil f v hv,
      mapNodesInEntries_of_nodes_eq_nil f rest hrest]

end

/-- An entry without nodes is not seen by a traversal. -/
theorem nodesInEntries_insert {key : String} {v : Value} {entries : Entries Value}
    (hkey : entries.lookup key = none) (hv : v.nodes = []) :
    nodesInEntries (Entries.insert key v entries) = nodesInEntries entries := by
  induction entries with
  | nil => simp only [Entries.insert, nodesInEntries, hv, List.append_nil]
  | cons e rest ih =>
    obtain ⟨other, w⟩ := e
    unfold Entries.insert
    by_cases hk : key = other
    · subst hk
      rw [List.lookup_cons_self] at hkey
      cases hkey
    · rw [Entries.lookup_cons_of_ne hk] at hkey
      rw [if_neg hk]
      split
      · rw [nodesInEntries, hv, List.nil_append]
      · rw [nodesInEntries, nodesInEntries, ih hkey]

end Value

theorem Node.children_mapChildren (f : Node → Node) (n : Node) :
    (n.mapChildren f).children = n.children.map f :=
  Value.nodesInEntries_mapNodes f n.fields

theorem Node.field?_mapChildren (f : Node → Node) (n : Node) (name : String) :
    (n.mapChildren f).field? name = (n.field? name).map (Value.mapNodes f) :=
  Value.lookup_mapNodesInEntries n.fields name

/-- A visit of a node that was changed, as was the one it stands in. -/
def Visit.map (f : Node → Node) (v : Visit) : Visit := (v.1.map f, f v.2)

theorem Visit.children_map {f : Node → Node} {v : Visit}
    (h : (f v.2).children = v.2.children.map f) : (v.map f).children = v.children.map (map f) := by
  unfold Visit.children
  rw [map, h, List.map_map, List.map_map]
  rfl

/-- What changes the children of a node along with it changes a walk visit by visit. -/
theorem visitAll_map {f : Node → Node} {stack : List Visit}
    (h : ∀ v ∈ visitAll stack, (f v.2).children = v.2.children.map f) :
    visitAll (stack.map (Visit.map f)) = (visitAll stack).map (Visit.map f) := by
  induction stack using visitAll.induct with
  | case1 => simp only [List.map_nil, visitAll]
  | case2 v stack ih =>
    rw [visitAll] at h
    obtain ⟨hv, hrest⟩ := List.forall_mem_cons.mp h
    rw [List.map_cons, visitAll, visitAll, Visit.children_map hv, ← List.map_append, ih hrest,
      List.map_cons]

theorem Node.walk_map {f : Node → Node} {root : Node}
    (h : ∀ v ∈ root.walk, (f v.2).children = v.2.children.map f) :
    (f root).walk = root.walk.map (Visit.map f) := visitAll_map h

end TreeFacts
