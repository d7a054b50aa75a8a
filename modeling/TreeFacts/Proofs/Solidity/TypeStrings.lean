import TreeFacts.Proofs.Json.Reading
import TreeFacts.Proofs.Tree.MapNodes
import TreeFacts.Proofs.Tree.Walk
import TreeFacts.Solidity.TypeStrings

namespace TreeFacts.Solidity

/-- A node has no type string of its own, and its type description has one. -/
def Describes (n : Node) (type : Value) : Prop :=
  n.field? "typeString" = none ∧ ∃ description,
    n.field? "typeDescriptions" = some (.map description) ∧
      description.lookup "typeString" = some type

theorem describedType?_eq_some {n : Node} {type : Value} :
    describedType? n.fields = some type ↔ Describes n type := by
  unfold describedType? Describes Node.field?
  constructor
  · intro h
    split at h
    next hown hdescription => exact ⟨hown, _, hdescription, h⟩
    next => cases h
  · rintro ⟨hown, description, hdescription, htype⟩
    rw [hown, hdescription]
    exact htype

theorem describedType?_mapNodes (f : Node → Node) (fields : List (String × Value)) :
    describedType? (Value.mapNodesInEntries f fields) =
      (describedType? fields).map (Value.mapNodes f) := by
  unfold describedType?
  rw [Value.lookup_mapNodesInEntries, Value.lookup_mapNodesInEntries]
  cases fields.lookup "typeString" with
  | some type => rfl
  | none =>
    cases fields.lookup "typeDescriptions" with
    | none => rfl
    | some described =>
      cases described with
      | map description => exact Value.lookup_mapNodesInEntries description "typeString"
      | null | bool b | int n | text t | node n | list items => rfl

/-- The node with the type string that its description has for it. -/
def typed (n : Node) : Node :=
  match describedType? n.fields with
  | some type => n.setField "typeString" type
  | none => n

theorem typed_of_describes {n : Node} {type : Value} (h : Describes n type) :
    typed n = n.setField "typeString" type := by
  rw [typed, describedType?_eq_some.mpr h]

theorem typed_of_not_describes {n : Node} (h : ∀ type, ¬Describes n type) : typed n = n := by
  have hnone : describedType? n.fields = none :=
    Option.eq_none_iff_forall_ne_some.mpr fun type htype => h type (describedType?_eq_some.mp htype)
  rw [typed, hnone]

/-- A type string without nodes is no child. -/
theorem children_typed {n : Node} (h : ∀ type, Describes n type → type.nodes = []) :
    (typed n).children = n.children := by
  by_cases hd : ∃ type, Describes n type
  · obtain ⟨type, hd⟩ := hd
    rw [typed_of_describes hd]
    exact Value.nodesInEntries_insert hd.1 (h type hd)
  · rw [typed_of_not_describes fun type htype => hd ⟨type, htype⟩]

mutual

theorem liftValue_eq : ∀ v : Value, liftValue v = v.mapNodes liftNode
  | .node n => rfl
  | .list items => by rw [liftValue, Value.mapNodes, liftList_eq items]
  | .map entries => by rw [liftValue, Value.mapNodes, liftEntries_eq entries]
  | .null | .bool _ | .int _ | .text _ => rfl

theorem liftList_eq : ∀ items : List Value, liftList items = Value.mapNodesInList liftNode items
  | [] => rfl
  | v :: rest => by rw [liftList, Value.mapNodesInList, liftValue_eq v, liftList_eq rest]

theorem liftEntries_eq : ∀ entries : List (String × Value),
    liftEntries entries = Value.mapNodesInEntries liftNode entries
  | [] => rfl
  | (_, v) :: rest => by
    rw [liftEntries, Value.mapNodesInEntries, liftValue_eq v, liftEntries_eq rest]

end

/-- A node gets its type string first, and what it then has embedded is lifted in place. -/
theorem liftNode_eq (n : Node) : liftNode n = (typed n).mapChildren liftNode := by
  obtain ⟨id, src, kind, fields⟩ := n
  rw [liftNode, liftEntries_eq, describedType?_mapNodes, typed]
  cases hd : describedType? fields with
  | none =>
    simp only [Node.fields, hd]
    rfl
  | some type =>
    simp only [Node.fields, hd]
    have hset := Value.mapNodesInEntries_insert (f := liftNode) "typeString" type fields
    exact congrArg (Node.mk id src kind) hset.symm

theorem children_liftNode {n : Node} (h : ∀ type, Describes n type → type.nodes = []) :
    (liftNode n).children = n.children.map liftNode := by
  rw [liftNode_eq, Node.children_mapChildren, children_typed h]

theorem walk_liftNode {root : Node}
    (h : ∀ v ∈ root.walk, ∀ type, Describes v.2 type → type.nodes = []) :
    (liftNode root).walk = root.walk.map (Visit.map liftNode) :=
  Node.walk_map fun v hv => children_liftNode (h v hv)

theorem liftEntries_insert (key : String) (v : Value) (entries : Entries Value) :
    liftEntries (Entries.insert key v entries) =
      Entries.insert key (liftValue v) (liftEntries entries) := by
  rw [liftEntries_eq, liftEntries_eq, liftValue_eq, Value.mapNodesInEntries_insert]

theorem describedType?_liftEntries (fields : List (String × Value)) :
    describedType? (liftEntries fields) = (describedType? fields).map liftValue := by
  rw [liftEntries_eq, describedType?_mapNodes, funext liftValue_eq]

theorem describedType?_insert (type : Value) (fields : Entries Value) :
    describedType? (Entries.insert "typeString" type fields) = none := by
  rw [describedType?, Entries.lookup_insert_self]

theorem liftNode_of_fixed {id : NodeId} {src kind : String} {fields : List (String × Value)}
    (h : liftEntries fields = fields) (hd : describedType? fields = none) :
    liftNode (.mk id src kind fields) = .mk id src kind fields := by
  rw [liftNode, h, hd]

mutual

theorem liftNode_liftNode : ∀ n : Node, liftNode (liftNode n) = liftNode n
  | .mk id src kind fields => by
    have hfields := liftEntries_liftEntries fields
    rw [liftNode]
    cases hd : describedType? (liftEntries fields) with
    | none => exact liftNode_of_fixed hfields hd
    | some type =>
      -- The type string was lifted with the fields that it is taken from.
      have htype : liftValue type = type := by
        have hagain := describedType?_liftEntries (liftEntries fields)
        rw [hfields, hd] at hagain
        exact (Option.some.inj hagain).symm
      have hset : liftEntries (Entries.insert "typeString" type (liftEntries fields)) =
          Entries.insert "typeString" type (liftEntries fields) := by
        rw [liftEntries_insert, htype, hfields]
      exact liftNode_of_fixed hset (describedType?_insert type _)

theorem liftValue_liftValue : ∀ v : Value, liftValue (liftValue v) = liftValue v
  | .node n => by rw [liftValue, liftValue, liftNode_liftNode n]
  | .list items => by rw [liftValue, liftValue, liftList_liftList items]
  | .map entries => by rw [liftValue, liftValue, liftEntries_liftEntries entries]
  | .null | .bool _ | .int _ | .text _ => rfl

theorem liftList_liftList : ∀ items : List Value, liftList (liftList items) = liftList items
  | [] => rfl
  | v :: rest => by rw [liftList, liftList, liftValue_liftValue v, liftList_liftList rest]

theorem liftEntries_liftEntries : ∀ entries : List (String × Value),
    liftEntries (liftEntries entries) = liftEntries entries
  | [] => rfl
  | (_, v) :: rest => by
    rw [liftEntries, liftEntries, liftValue_liftValue v, liftEntries_liftEntries rest]

end

/-- What a node is loaded as: itself where it is not described, else itself with its type string,
and what is embedded in it loaded in place. -/
structure LoadsAs (n loaded : Node) : Prop where
  id_eq : loaded.id = n.id
  kind_eq : loaded.kind = n.kind
  src_eq : loaded.src = n.src
  gains : ∀ type, Describes n type → loaded.field? "typeString" = some type ∧
    loaded = (n.setField "typeString" type).mapChildren liftNode
  keeps : (∀ type, ¬Describes n type) → loaded = n.mapChildren liftNode

theorem loadsAs_liftNode {n : Node} (h : ∀ type, Describes n type → type.nodes = []) :
    LoadsAs n (liftNode n) := by
  have hown : (liftNode n).id = n.id ∧ (liftNode n).kind = n.kind ∧ (liftNode n).src = n.src := by
    cases n
    rw [liftNode]
    exact ⟨rfl, rfl, rfl⟩
  refine ⟨hown.1, hown.2.1, hown.2.2, fun type htype => ?_, fun hnone => ?_⟩
  · have hloaded : liftNode n = (n.setField "typeString" type).mapChildren liftNode := by
      rw [liftNode_eq, typed_of_describes htype]
    have hfield : (n.setField "typeString" type).field? "typeString" = some type :=
      Entries.lookup_insert_self "typeString" type n.fields
    refine ⟨?_, hloaded⟩
    rw [hloaded, Node.field?_mapChildren, hfield, Option.map_some,
      Value.mapNodes_of_nodes_eq_nil _ _ (h type htype)]
  · rw [liftNode_eq, typed_of_not_describes hnone]

/-- A loaded tree has the nodes that were read, with the type strings that they describe and no
other difference. -/
theorem load?_walk {text : String} {root : Node} (h : Node.parse? text = some root)
    (hplain : ∀ v ∈ root.walk, ∀ type, Describes v.2 type → type.nodes = []) :
    ∃ loaded, load? text = some loaded ∧
      loaded.walk = root.walk.map (fun v => (v.1.map liftNode, liftNode v.2)) ∧
      (∀ v ∈ root.walk, LoadsAs v.2 (liftNode v.2)) ∧ liftNode loaded = loaded := by
  refine ⟨liftNode root, ?_, walk_liftNode hplain, ?_, liftNode_liftNode root⟩
  · rw [load?, h, Option.map_some]
  · intro v hv
    exact loadsAs_liftNode (hplain v hv)

/-- A literal in a list that is described, and one in a map that has a type string as well. -/
def typedDocument : Json :=
  .obj [("id", .int 1), ("nodeType", .str "Block"),
    ("body", .arr [.null, .obj [("id", .int 2), ("nodeType", .str "Literal"),
      ("typeDescriptions", .obj [("typeString", .str "uint8")])]]),
    ("exports", .obj [("last", .obj [("id", .int 3), ("nodeType", .str "Literal"),
      ("typeDescriptions", .obj [("typeString", .str "bool")]), ("typeString", .str "int8")])])]

def typedNode : Node :=
  let described (type : String) : Value := .map [("typeString", .text type)]
  .mk 1 "" "Block"
    [("body", .list [.null, .node (.mk 2 "" "Literal" [("typeDescriptions", described "uint8")])]),
      ("exports", .map [("last", .node (.mk 3 "" "Literal"
        [("typeDescriptions", described "bool"), ("typeString", .text "int8")]))])]

theorem load?_walk_typed :
    Node.parse? typedDocument.render = some typedNode ∧
      (∀ v ∈ typedNode.walk, ∀ type, Describes v.2 type → type.nodes = []) ∧
      ∃ loaded, load? typedDocument.render = some loaded ∧
        loaded.walk.map (fun v => (v.2.id, (v.2.field? "typeString").bind Value.text?)) =
          [(1, none), (2, some "uint8"), (3, some "int8")] := by
  have hparse : Node.parse? typedDocument.render = some typedNode := by
    have hjson : Json.parse typedDocument.render = some typedDocument :=
      Json.parse_render (by decide)
    rw [Node.parse?, hjson, Option.bind_some]
    rfl
  have hplain : ∀ v ∈ typedNode.walk, ∀ type, Describes v.2 type → type.nodes = [] := by
    have hall : typedNode.walk.all
        (fun v => (describedType? v.2.fields).all fun type => type.nodes.isEmpty) = true := by
      rw [walk_eq]
      rfl
    intro v hv type htype
    have hnodes := List.all_eq_true.mp hall v hv
    rw [describedType?_eq_some.mpr htype] at hnodes
    exact List.isEmpty_iff.mp hnodes
  refine ⟨hparse, hplain, ?_⟩
  obtain ⟨loaded, hloaded, hwalk, -, -⟩ := load?_walk hparse hplain
  refine ⟨loaded, hloaded, ?_⟩
  rw [hwalk, walk_eq]
  rfl

end TreeFacts.Solidity
