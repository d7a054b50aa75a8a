import Mathlib.Data.List.Perm.Basic
import TreeFacts.Proofs.Tree.Index
import TreeFacts.Proofs.Tree.Walk

namespace TreeFacts

mutual

/-- A tree in which the chosen nodes below its root stand as their bare identifiers. -/
def Node.detach (chosen : NodeId → Bool) : Node → Node
  | .mk id src kind fields => .mk id src kind (Value.detachInEntries chosen fields)

/-- A value in which the chosen nodes stand as their bare identifiers, at any depth. -/
def Value.detach (chosen : NodeId → Bool) : Value → Value
  | .node n => if chosen n.id then .int n.id else .node (n.detach chosen)
  | .list items => .list (Value.detachInList chosen items)
  | .map entries => .map (Value.detachInEntries chosen entries)
  | .null => .null
  | .bool b => .bool b
  | .int n => .int n
  | .text s => .text s

def Value.detachInList (chosen : NodeId → Bool) : List Value → List Value
  | [] => []
  | v :: rest => v.detach chosen :: Value.detachInList chosen rest

def Value.detachInEntries (chosen : NodeId → Bool) :
    List (String × Value) → List (String × Value)
  | [] => []
  | (key, v) :: rest => (key, v.detach chosen) :: Value.detachInEntries chosen rest

end

/-- The chosen nodes of a forest that are embedded in others. -/
def embedded (chosen : NodeId → Bool) (roots : List Node) : List Node :=
  ((walkAll roots).filter fun v => v.1.isSome && chosen v.2.id).map (·.2)

/-- The forest in which the chosen embedded nodes are trees of their own, and identifiers stand in
their places. -/
def detachAll (chosen : NodeId → Bool) (roots : List Node) : List Node :=
  (roots ++ embedded chosen roots).map (Node.detach chosen)

variable {chosen : NodeId → Bool} {roots roots' ns : List Node}

namespace Node

variable (chosen) (n : Node)

@[simp] theorem id_detach : (n.detach chosen).id = n.id := by
  cases n
  rw [detach, id, id]

@[simp] theorem src_detach : (n.detach chosen).src = n.src := by
  cases n
  rw [detach, src, src]

@[simp] theorem kind_detach : (n.detach chosen).kind = n.kind := by
  cases n
  rw [detach, kind, kind]

@[simp] theorem fields_detach :
    (n.detach chosen).fields = Value.detachInEntries chosen n.fields := by
  cases n
  rw [detach, fields, fields]

theorem field?_detach (name : String) :
    (n.detach chosen).field? name = (n.field? name).map (Value.detach chosen) := by
  rw [field?, field?, fields_detach]
  induction n.fields with
  | nil => rfl
  | cons e rest ih =>
    obtain ⟨key, v⟩ := e
    rw [Value.detachInEntries, List.lookup_cons, List.lookup_cons]
    split
    next => rfl
    next => exact ih

end Node

namespace Value

mutual

theorem nodes_detach (chosen : NodeId → Bool) : ∀ v : Value, (v.detach chosen).nodes =
    (v.nodes.filter fun n => !chosen n.id).map (Node.detach chosen)
  | .node n => by
    by_cases h : chosen n.id = true <;> simp [detach, nodes, h]
  | .list items => by simp only [detach, nodes, nodesInList_detach chosen items]
  | .map entries => by simp only [detach, nodes, nodesInEntries_detach chosen entries]
  | .null | .bool _ | .int _ | .text _ => by
    simp only [detach, nodes, List.filter_nil, List.map_nil]

theorem nodesInList_detach (chosen : NodeId → Bool) : ∀ items : List Value,
    nodesInList (detachInList chosen items) =
      ((nodesInList items).filter fun n => !chosen n.id).map (Node.detach chosen)
  | [] => by simp only [detachInList, nodesInList, List.filter_nil, List.map_nil]
  | v :: rest => by
    simp only [detachInList, nodesInList, List.filter_append, List.map_append,
      nodes_detach chosen v, nodesInList_detach chosen rest]

theorem nodesInEntries_detach (chosen : NodeId → Bool) : ∀ entries : List (String × Value),
    nodesInEntries (detachInEntries chosen entries) =
      ((nodesInEntries entries).filter fun n => !chosen n.id).map (Node.detach chosen)
  | [] => by simp only [detachInEntries, nodesInEntries, List.filter_nil, List.map_nil]
  | (_, v) :: rest => by
    simp only [detachInEntries, nodesInEntries, List.filter_append, List.map_append,
      nodes_detach chosen v, nodesInEntries_detach chosen rest]

end

end Value

namespace Node

/-- The children that stay are those that are not chosen. -/
theorem children_detach (chosen : NodeId → Bool) (n : Node) : (n.detach chosen).children =
    (n.children.filter fun m => !chosen m.id).map (detach chosen) := by
  rw [children, children, fields_detach, Value.nodesInEntries_detach]

/-- A node and all that are in it. -/
def subtrees (n : Node) : List Node := (n.visits none).map (·.2)

theorem map_visits (parent : Option Node) (n : Node) : (n.visits parent).map (·.2) = n.subtrees := by
  rw [subtrees, visits_eq, visits_eq, List.map_cons, List.map_cons]

theorem subtrees_eq (n : Node) : n.subtrees = n :: n.children.flatMap subtrees := by
  rw [subtrees, visits_eq, List.map_cons, List.map_flatMap]
  simp only [map_visits]

end Node

theorem nodesOfRoots_eq (roots : List Node) : nodesOfRoots roots = roots.flatMap Node.subtrees := by
  rw [nodesOfRoots, visitsOfRoots, List.map_flatMap]
  rfl

/-- The nodes of a tree whose chosen nodes are detached, and those of the trees made of them. -/
def Node.scattered (chosen : NodeId → Bool) (n : Node) : List Node :=
  (n.detach chosen).subtrees ++ ((n.children.flatMap subtrees).filter fun m => chosen m.id).flatMap
    fun m => (m.detach chosen).subtrees

/-- If no node is lost from each of some trees, none is lost where these are embedded, whether they
are chosen or not. -/
theorem perm_of_scattered
    (h : ∀ n ∈ ns, (n.scattered chosen).Perm (n.subtrees.map (Node.detach chosen))) :
    ((ns.filter fun n => !chosen n.id).flatMap (fun n => (n.detach chosen).subtrees) ++
      ((ns.flatMap Node.subtrees).filter fun m => chosen m.id).flatMap
        fun m => (m.detach chosen).subtrees).Perm
      ((ns.flatMap Node.subtrees).map (Node.detach chosen)) := by
  induction ns with
  | nil => exact List.Perm.refl _
  | cons n ns ih =>
    obtain ⟨hn, hns⟩ := List.forall_mem_cons.mp h
    have hboth := hn.append (ih hns)
    have hcut : (n.subtrees.filter fun m => chosen m.id) =
        (if chosen n.id then [n] else []) ++
          (n.children.flatMap Node.subtrees).filter fun m => chosen m.id := by
      rw [n.subtrees_eq, List.filter_cons]
      split <;> rfl
    rw [List.flatMap_cons, List.map_append, List.filter_append, List.flatMap_append, hcut,
      List.flatMap_append]
    refine List.Perm.trans ?_ hboth
    unfold Node.scattered
    by_cases hchosen : chosen n.id = true
    · have hdropped : ((n :: ns).filter fun m => !chosen m.id) =
          ns.filter fun m => !chosen m.id := by simp [hchosen]
      rw [hdropped, if_pos hchosen, List.flatMap_singleton]
      exact List.perm_append_comm_assoc _ _ _
    · have hkept : ((n :: ns).filter fun m => !chosen m.id) =
          n :: ns.filter fun m => !chosen m.id := by simp [hchosen]
      rw [hkept, if_neg hchosen, List.flatMap_nil, List.nil_append,
        List.flatMap_cons, List.append_assoc, List.append_assoc]
      exact (List.perm_append_comm_assoc _ _ _).append_left _

/-- No node of a tree is lost or doubled when nodes of it are detached. -/
theorem Node.scattered_perm (chosen : NodeId → Bool) (n : Node) :
    (n.scattered chosen).Perm (n.subtrees.map (detach chosen)) := by
  have hchildren := perm_of_scattered fun m (_ : m ∈ n.children) => scattered_perm chosen m
  have hroot : (n.detach chosen).subtrees = n.detach chosen ::
      (n.children.filter fun m => !chosen m.id).flatMap fun m => (m.detach chosen).subtrees := by
    rw [subtrees_eq, children_detach, List.flatMap_map]
  rw [scattered, hroot, n.subtrees_eq, List.map_cons, List.cons_append]
  exact hchildren.cons _
  termination_by n.size
  decreasing_by exact size_lt_of_mem_children ‹_›

theorem isSome_of_mem_visits {parent n : Node} {v : Visit} (h : v ∈ n.visits (some parent)) :
    v.1.isSome = true := by
  have hv : v ∈ visitAll [(some parent, n)] := by
    rw [visitAll_eq, List.flatMap_singleton]
    exact h
  rcases mem_stack_or_child hv with hstack | ⟨w, -, hchild⟩
  · rw [List.mem_singleton.mp hstack]
    rfl
  · obtain ⟨child, -, rfl⟩ := List.mem_map.mp hchild
    rfl

/-- The embedded nodes are those below the roots. -/
theorem embedded_eq (chosen : NodeId → Bool) (roots : List Node) :
    embedded chosen roots = roots.flatMap fun root =>
      (root.children.flatMap Node.subtrees).filter fun m => chosen m.id := by
  rw [embedded, walkAll_eq, visitsOfRoots, List.filter_flatMap, List.map_flatMap]
  congr 1
  funext root
  have hbelow : (root.children.flatMap (Node.visits (some root))).filter
      (fun v => v.1.isSome && chosen v.2.id) =
      (root.children.flatMap (Node.visits (some root))).filter fun v => chosen v.2.id := by
    refine List.filter_congr fun v hv => ?_
    obtain ⟨child, -, hv⟩ := List.mem_flatMap.mp hv
    rw [isSome_of_mem_visits hv, Bool.true_and]
  have hnodes : root.children.flatMap Node.subtrees =
      (root.children.flatMap (Node.visits (some root))).map (·.2) := by
    rw [List.map_flatMap]
    simp only [Node.map_visits]
  rw [Node.visits_eq, List.filter_cons_of_neg (by simp), hbelow, hnodes, List.filter_map]
  rfl

/-- A forest has the same nodes, each changed in its place, when some of them are detached. -/
theorem nodesOfRoots_detachAll (chosen : NodeId → Bool) (roots : List Node) :
    (nodesOfRoots (detachAll chosen roots)).Perm
      ((nodesOfRoots roots).map (Node.detach chosen)) := by
  rw [nodesOfRoots_eq, nodesOfRoots_eq, detachAll, List.flatMap_map, List.flatMap_append,
    embedded_eq, List.flatMap_assoc, List.map_flatMap]
  exact (List.flatMap_append_perm roots _ _).trans
    ((List.Perm.refl roots).flatMap fun root _ => root.scattered_perm chosen)

theorem nodesOfRoots_perm (h : roots.Perm roots') :
    (nodesOfRoots roots).Perm (nodesOfRoots roots') := by
  rw [nodesOfRoots_eq, nodesOfRoots_eq]
  exact h.flatMap_right _

theorem NodeIndex.ofRoots_nodes (h : ((nodesOfRoots roots).map Node.id).Nodup) :
    ∃ ix, ofRoots roots = .ok ix ∧
      ∀ id n, ix.get? id = some n ↔ n.id = id ∧ n ∈ nodesOfRoots roots := by
  have hvisits : ((walkAll roots).map (·.2.id)).Nodup := by
    rw [walkAll_eq]
    rwa [nodesOfRoots, List.map_map] at h
  obtain ⟨ix, hix, hget⟩ := ofRoots_eq_ok hvisits
  refine ⟨ix, hix, fun id n => ?_⟩
  rw [hget, walkAll_eq, nodesOfRoots, List.mem_map]

/-- With distinct identifiers, a forest and the one with detached nodes are both indexed, and each
identifier stands for the same node in both. -/
theorem NodeIndex.ofRoots_detachAll (h : ((walkAll roots).map (·.2.id)).Nodup)
    (hroots : roots'.Perm (detachAll chosen roots)) :
    ∃ ix ix', ofRoots roots = .ok ix ∧ ofRoots roots' = .ok ix' ∧
      (∀ id n, ix.get? id = some n ↔ n.id = id ∧ n ∈ nodesOfRoots roots) ∧
      ∀ id, ix'.get? id = (ix.get? id).map (Node.detach chosen) := by
  have hperm := (nodesOfRoots_perm hroots).trans (nodesOfRoots_detachAll chosen roots)
  have hnodup : ((nodesOfRoots roots).map Node.id).Nodup := by
    rw [walkAll_eq] at h
    rwa [nodesOfRoots, List.map_map]
  have hids : ((nodesOfRoots roots').map Node.id).Perm ((nodesOfRoots roots).map Node.id) := by
    have hsame : Node.id ∘ Node.detach chosen = Node.id := funext (Node.id_detach chosen)
    have hmap := hperm.map Node.id
    rwa [List.map_map, hsame] at hmap
  obtain ⟨ix, hix, hget⟩ := ofRoots_nodes hnodup
  obtain ⟨ix', hix', hget'⟩ := ofRoots_nodes (hids.nodup_iff.mpr hnodup)
  refine ⟨ix, ix', hix, hix', hget, fun id => Option.ext fun n' => ?_⟩
  rw [hget', hperm.mem_iff, List.mem_map, Option.map_eq_some_iff]
  constructor
  · rintro ⟨rfl, n, hn, rfl⟩
    exact ⟨n, (hget _ n).mpr ⟨(Node.id_detach chosen n).symm, hn⟩, rfl⟩
  · rintro ⟨n, hn, rfl⟩
    obtain ⟨rfl, hmem⟩ := (hget id n).mp hn
    exact ⟨Node.id_detach chosen n, n, hmem, rfl⟩

end TreeFacts
