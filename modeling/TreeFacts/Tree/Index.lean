import TreeFacts.Tree.Basic

namespace TreeFacts

/-- A node as a walk meets it: with the node it is embedded in, unless it is the root. -/
abbrev Visit := Option Node × Node

namespace Visit

/-- The visits of a node's children. -/
def children (v : Visit) : List Visit := v.2.children.map (some v.2, ·)

theorem size_children (v : Visit) :
    Value.sizeInList (v.children.map fun child => .node child.2) + 1 = v.2.size := by
  rw [children, List.map_map]
  exact v.2.size_eq.symm

end Visit

/-- Visits the nodes that wait on a stack: the topmost, then its children, then the others. -/
def visitAll : List Visit → List Visit
  | [] => []
  | v :: stack => v :: visitAll (v.children ++ stack)
  termination_by stack => Value.sizeInList (stack.map fun v => .node v.2)
  decreasing_by
    have h := v.size_children
    simp only [List.map_append, List.map_cons, Value.sizeInList_append, Value.sizeInList,
      Value.size]
    omega

/-- All nodes of a tree, each after the node it is embedded in and before its later siblings. -/
def Node.walk (root : Node) : List Visit := visitAll [(none, root)]

/-- The nodes of a forest, tree by tree. -/
def walkAll (roots : List Node) : List Visit := roots.flatMap Node.walk

/-- The nodes of a forest under their identifiers, of which each stands for one node. -/
structure NodeIndex where
  entries : List (NodeId × Node)

namespace NodeIndex

def get? (ix : NodeIndex) (id : NodeId) : Option Node := ix.entries.lookup id

def size (ix : NodeIndex) : Nat := ix.entries.length

def insert (ix : NodeIndex) (n : Node) : Except TreeError NodeIndex :=
  match ix.get? n.id with
  | some _ => .error (.duplicateId n.id)
  | none => .ok ⟨(n.id, n) :: ix.entries⟩

/-- Indexes every node of the given trees. -/
def ofRoots (roots : List Node) : Except TreeError NodeIndex :=
  (walkAll roots).foldlM (fun ix visit => ix.insert visit.2) ⟨[]⟩

end NodeIndex

end TreeFacts
