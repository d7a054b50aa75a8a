import TreeFacts.Proofs.Encoding.Coverage
import TreeFacts.Proofs.Lifting.Cell
import TreeFacts.Proofs.Tree.Index

namespace TreeFacts

namespace Lifter

variable {l : Lifter}

def liftColumns (l : Lifter) (vs : List FactValue) (columns : FieldTypes) :
    Except Error (List Lifted) :=
  (vs.zip columns).mapM fun (p : FactValue × String × ColumnType) => l.lift p.1 p.2.2

theorem liftTuple_eq {d : Relation} {t : Tuple} (h : t.length = d.arity) :
    l.liftTuple d t =
      (l.liftColumns t d.columns).map fun values => ⟨d.name, d.columns.map (·.1), values⟩ := by
  rw [liftTuple, if_pos h]
  rfl

theorem liftColumns_nil (l : Lifter) : l.liftColumns [] [] = .ok [] := rfl

theorem liftColumns_cons {v : FactValue} {x : Lifted} {name : String} {type : ColumnType}
    (h : l.lift v type = .ok x) (vs : List FactValue) (columns : FieldTypes) :
    l.liftColumns (v :: vs) ((name, type) :: columns) = (l.liftColumns vs columns).map (x :: ·) := by
  rw [liftColumns, List.zip_cons_cons, List.mapM_cons, h]
  rfl

theorem liftColumns_cons_error {v : FactValue} {e : Error} {name : String} {type : ColumnType}
    (h : l.lift v type = .error e) (vs : List FactValue) (columns : FieldTypes) :
    l.liftColumns (v :: vs) ((name, type) :: columns) = .error e := by
  rw [liftColumns, List.zip_cons_cons, List.mapM_cons, h]
  rfl

theorem liftColumns_append {vs : List FactValue} {xs : List Lifted} {columns : FieldTypes}
    (h : l.liftColumns vs columns = .ok xs) (hlen : vs.length = columns.length)
    (ws : List FactValue) (more : FieldTypes) :
    l.liftColumns (vs ++ ws) (columns ++ more) = (l.liftColumns ws more).map (xs ++ ·) := by
  rw [liftColumns, List.zip_append hlen, List.mapM_append]
  rw [liftColumns] at h
  rw [h]
  rfl

theorem length_of_liftColumns {vs : List FactValue} {xs : List Lifted} {columns : FieldTypes}
    (h : l.liftColumns vs columns = .ok xs) (hlen : vs.length = columns.length) :
    xs.length = vs.length := by
  have hzip := (mapM_eq_ok.mp h).length_eq
  rw [List.length_zip, ← hlen, Nat.min_self] at hzip
  exact hzip.symm

end Lifter

namespace FieldProjection

variable {p : FieldProjection} {c : FieldContext} {l : Lifter} {nodes : List Node}

/-- Keys, indices and marks of presence are always lifted. -/
theorem lift_marks (l : Lifter) {v : Value} {slot : Slot} (h : slot ∈ p.slots v) :
    (∃ xs, l.liftColumns slot.before p.shape.leading = .ok xs) ∧
      ∃ xs, l.liftColumns slot.after p.shape.trailing = .ok xs := by
  have hnumber (n : Int64) := Lifter.lift_number (Registry.classify_number l.registry) n
  have hbool (n : Int64) := Lifter.lift_bool (Registry.classify_bool l.registry) n
  have hsymbol (s : String) := Lifter.lift_symbol (Registry.classify_symbol l.registry) s
  have hnil := Lifter.liftColumns_nil l
  unfold slots at h
  cases hs : p.shape with
  | scalar | recordList =>
    simp only [hs, List.mem_singleton] at h
    subst h
    exact ⟨⟨[], hnil⟩, [], hnil⟩
  | optional =>
    simp only [hs, List.mem_singleton] at h
    subst h
    exact ⟨⟨[], hnil⟩, _, Lifter.liftColumns_cons (hbool _) [] []⟩
  | array =>
    simp only [hs] at h
    obtain ⟨e, -, rfl⟩ := List.mem_map.mp h
    exact ⟨⟨[], hnil⟩, _, Lifter.liftColumns_cons (hnumber _) [] []⟩
  | sparseArray =>
    simp only [hs] at h
    obtain ⟨e, -, rfl⟩ := List.mem_map.mp h
    have hlast : l.liftColumns [indexValue e.1.2] [("rawIndex", .number)] =
        .ok [.number (Int64.ofNat e.1.2)] := Lifter.liftColumns_cons (hnumber _) [] []
    refine ⟨⟨[], hnil⟩, [.number (Int64.ofNat e.2), .number (Int64.ofNat e.1.2)], ?_⟩
    exact (Lifter.liftColumns_cons (hnumber _) _ _).trans (congrArg _ hlast)
  | map =>
    simp only [hs] at h
    obtain ⟨e, -, h⟩ := List.mem_flatMap.mp h
    obtain ⟨target, -, rfl⟩ := List.mem_map.mp h
    exact ⟨⟨_, Lifter.liftColumns_cons (hsymbol _) [] []⟩, [], hnil⟩

/-- What lifting gives for a tuple of a node's field: the node itself and the cell in terms of the
tree, or else the fault that a bare identifier of the cell dangles. -/
def Lifts (p : FieldProjection) (nodes : List Node) (n : Node) (slot : Slot) :
    Except Error LiftedFact → Prop
  | .ok fact =>
    ∃ before x after, fact.values = .node n :: (before ++ x :: after) ∧
      before.length = slot.before.length ∧ after.length = slot.after.length ∧
      p.LiftsTo nodes slot.value x
  | .error err =>
    ∃ id, err = .danglingReference id ∧ p.Writes slot.value id ∧ Missing nodes id

theorem lifts_of_fills (hk : l.Knows nodes) (hf : p.Fits l.registry) (hr : c.registry = l.registry)
    {idType : ColumnType} (hid : l.registry.classify idType = .ok .nodeId) {n : Node}
    (hn : n ∈ nodes) {v : Value} (hv : ∀ m ∈ v.nodes, m ∈ nodes) {slot : Slot}
    (hslot : slot ∈ p.slots v) {t : Tuple} (ht : p.Fills c (.number n.id) slot t) :
    p.Lifts nodes n slot (l.liftTuple (p.toRelation idType) t) := by
  obtain ⟨w, hw, rfl⟩ := ht
  obtain ⟨⟨before, hbefore⟩, after, hafter⟩ := lift_marks l hslot
  obtain ⟨htypes, htypes'⟩ := marks_haveTypes l.registry hslot
  have hlen : (FactValue.number n.id :: (slot.before ++ w :: slot.after)).length =
      (p.toRelation idType).arity := by
    rw [Relation.arity, columns_toRelation]
    simp [htypes.length_eq, htypes'.length_eq]
  rw [Lifter.liftTuple_eq hlen, columns_toRelation,
    Lifter.liftColumns_cons (hk.lift_node hid hn),
    Lifter.liftColumns_append hbefore htypes.length_eq]
  have hnodes := fun m hm => hv m (mem_nodes_of_mem_slots hslot hm)
  -- Only the cell can dangle, since what stands around it is always lifted.
  rcases lift_cell hk hf hr hnodes hw with ⟨x, hx, hlifts⟩ | ⟨id, hx, hwrites, hmissing⟩
  · rw [Lifter.liftColumns_cons hx, hafter]
    exact ⟨before, x, after, rfl, Lifter.length_of_liftColumns hbefore htypes.length_eq,
      Lifter.length_of_liftColumns hafter htypes'.length_eq, hlifts⟩
  · rw [Lifter.liftColumns_cons_error hx]
    exact ⟨id, rfl, hwrites, hmissing⟩

end FieldProjection

namespace Lifter

variable {l : Lifter} {fs : FactSet}

theorem liftAll_of_facts_map {α : Type} {d : Relation} {as : List α} {tuple : α → Tuple}
    {fact : α → LiftedFact} (htable : fs.table? d.name = some (d, as.map tuple))
    (h : ∀ a ∈ as, l.liftTuple d (tuple a) = .ok (fact a)) :
    l.liftAll fs d.name = .ok (as.map fact) := by
  rw [liftAll, htable]
  refine mapM_eq_ok.mpr ?_
  rw [List.forall₂_map_left_iff, List.forall₂_map_right_iff, List.forall₂_same]
  exact h

theorem isOk_of_liftAll {name : String} {d : Relation} {tuples : List Tuple}
    (htable : fs.table? name = some (d, tuples)) {facts : List LiftedFact}
    (h : l.liftAll fs name = .ok facts) {t : Tuple} (ht : t ∈ tuples) :
    ∃ fact, l.liftTuple d t = .ok fact := by
  rw [liftAll, htable] at h
  have hall := (mapM_eq_ok.mp h).flip
  obtain ⟨fact, -, hfact⟩ := exists_of_forall₂ hall ht
  exact ⟨fact, hfact⟩

end Lifter

namespace Schema

variable {g : Grammar} {skip : SkipSet} {s : Schema} {l : Lifter}

/-- A field of one of the nodes holds the identifier as a bare reference. -/
def WritesReference (s : Schema) (visits : List Visit) (id : NodeId) : Prop :=
  ∃ k ∈ s.kinds, ∃ p ∈ k.fields, ∃ e ∈ p.slotsOf (nodesOf k.name visits), p.Writes e.2.value id

/-- The facts are lifted back to the nodes that they were made from. Nothing but a bare reference to
no node keeps a tuple from being lifted. -/
structure LiftsBack (s : Schema) (l : Lifter) (visits : List Visit) (fs : FactSet) : Prop where
  tuples : ∀ {name d tuples}, fs.table? name = some (d, tuples) → ∀ t ∈ tuples,
    (∃ fact, l.liftTuple d t = .ok fact) ∨
      ∃ id, l.liftTuple d t = .error (.danglingReference id) ∧ s.WritesReference visits id ∧
        Missing (visits.map (·.2)) id
  src : l.liftAll fs "src" =
    .ok (visits.map fun v => ⟨"src", ["id", "src"], [.node v.2, .text (sanitize v.2.src)]⟩)
  parent : l.liftAll fs "parent" =
    .ok ((embeddings visits).map fun e =>
      ⟨"parent", ["parentId", "childId"], [.node e.1, .node e.2]⟩)
  members : ∀ k ∈ s.kinds, k.isAbstract = false →
    l.liftAll fs k.name = .ok ((nodesOf k.name visits).map fun n => ⟨k.name, ["id"], [.node n]⟩)
  fields : ∀ k ∈ s.kinds, ∀ p ∈ k.fields, ∃ d tuples,
    fs.table? (k.name ++ "_" ++ p.field) = some (d, tuples) ∧
      List.Forall₂ (fun e t => p.Lifts (visits.map (·.2)) e.1 e.2 (l.liftTuple d t))
        (p.slotsOf (nodesOf k.name visits)) tuples

theorem table?_eq_some_of_facts {e : Enrichment} (h : derive g skip e = .ok s) {facts : List Fact}
    {fs : FactSet} (hfs : (FactSet.ofRelations s.inputs).addAll facts = .ok fs) {d : Relation}
    (hd : d ∈ s.inputs) {tuples : List Tuple} (hf : fs.facts d.name = .ok tuples) :
    fs.table? d.name = some (d, tuples) := by
  have htable := table?_of_addAll_inputs h hfs hd
  rw [FactSet.facts_of_table? htable] at hf
  cases hf
  exact htable

/-- The slots of a field's relation are those of nodes that are visited, made from what is visited. -/
theorem mem_slotsOf {roots : List Node} {kind : String} {p : FieldProjection} {e : Node × Slot}
    (he : e ∈ p.slotsOf (nodesOf kind (visitsOfRoots roots))) :
    e.1 ∈ (visitsOfRoots roots).map (·.2) ∧ e.2 ∈ p.slots (e.1.value p.field) ∧
      ∀ m ∈ (e.1.value p.field).nodes, m ∈ (visitsOfRoots roots).map (·.2) := by
  obtain ⟨n, hn, he⟩ := List.mem_flatMap.mp he
  obtain ⟨slot, hslot, rfl⟩ := List.mem_map.mp he
  obtain ⟨-, v, hv, rfl⟩ := mem_nodesOf.mp hn
  refine ⟨List.mem_map_of_mem hv, hslot, ?_⟩
  intro m hm
  have hchild := child_mem_visitsOfRoots hv (Node.mem_children_of_value hm)
  exact List.mem_map.mpr ⟨_, hchild, rfl⟩

theorem liftTuple_pair {d : Relation} {name name' : String} {type type' : ColumnType}
    (hd : d.columns = [(name, type), (name', type')]) {v w : FactValue} {x y : Lifted}
    (hx : l.lift v type = .ok x) (hy : l.lift w type' = .ok y) :
    l.liftTuple d [v, w] = .ok ⟨d.name, [name, name'], [x, y]⟩ := by
  have hlen : [v, w].length = d.arity := by
    rw [Relation.arity, hd]
    rfl
  rw [Lifter.liftTuple_eq hlen, hd, Lifter.liftColumns_cons hx, Lifter.liftColumns_cons hy]
  rfl

theorem liftTuple_single {d : Relation} {name : String} {type : ColumnType}
    (hd : d.columns = [(name, type)]) {v : FactValue} {x : Lifted} (hx : l.lift v type = .ok x) :
    l.liftTuple d [v] = .ok ⟨d.name, [name], [x]⟩ := by
  have hlen : [v].length = d.arity := by
    rw [Relation.arity, hd]
    rfl
  rw [Lifter.liftTuple_eq hlen, hd, Lifter.liftColumns_cons hx]
  rfl

theorem tree_liftsBack (h : derive g skip Enrichment.none = .ok s) {roots : List Node}
    {facts : List Fact} {fs : FactSet}
    (hfs : (FactSet.ofRelations s.inputs).addAll facts = .ok fs)
    (hcovers : s.Covers (visitsOfRoots roots) fs)
    (hk : l.Knows ((visitsOfRoots roots).map (·.2))) :
    l.liftAll fs "src" = .ok ((visitsOfRoots roots).map fun v =>
        ⟨"src", ["id", "src"], [.node v.2, .text (sanitize v.2.src)]⟩) ∧
      l.liftAll fs "parent" = .ok ((embeddings (visitsOfRoots roots)).map fun e =>
        ⟨"parent", ["parentId", "childId"], [.node e.1, .node e.2]⟩) := by
  obtain ⟨hparent, hsrc⟩ := tree_mem_inputs h
  have hid : l.registry.classify .id = .ok .nodeId := Registry.classify_id l.registry
  have hsymbol : l.registry.classify .symbol = .ok .symbol := Registry.classify_symbol l.registry
  constructor
  · refine Lifter.liftAll_of_facts_map (d := srcRelation)
      (table?_eq_some_of_facts h hfs hsrc hcovers.src) ?_
    intro v hv
    exact liftTuple_pair rfl (hk.lift_node hid (List.mem_map_of_mem hv))
      (Lifter.lift_symbol hsymbol _)
  · refine Lifter.liftAll_of_facts_map (d := parentRelation)
      (table?_eq_some_of_facts h hfs hparent hcovers.parent) ?_
    intro e he
    obtain ⟨⟨parent?, n⟩, hv, heq⟩ := List.mem_filterMap.mp he
    obtain ⟨parent, rfl, rfl⟩ := Option.map_eq_some_iff.mp heq
    have hn : n ∈ (visitsOfRoots roots).map (·.2) := List.mem_map.mpr ⟨_, hv, rfl⟩
    have hp : parent ∈ (visitsOfRoots roots).map (·.2) :=
      List.mem_map.mpr (parent_mem_visitsOfRoots hv)
    exact liftTuple_pair rfl (hk.lift_node hid hp) (hk.lift_node hid hn)

theorem members_liftBack (h : derive g skip Enrichment.none = .ok s) {roots : List Node}
    {facts : List Fact} {fs : FactSet}
    (hfs : (FactSet.ofRelations s.inputs).addAll facts = .ok fs)
    (hcovers : s.Covers (visitsOfRoots roots) fs)
    (hk : l.Knows ((visitsOfRoots roots).map (·.2))) {k : KindSchema} (hkind : k ∈ s.kinds)
    (hc : k.isAbstract = false) (hid : l.registry.classify k.idType = .ok .nodeId) :
    l.liftAll fs k.name =
      .ok ((nodesOf k.name (visitsOfRoots roots)).map fun n => ⟨k.name, ["id"], [.node n]⟩) := by
  have htable := table?_eq_some_of_facts h hfs (membership_mem_inputs h hkind hc)
    (hcovers.members k hkind hc)
  refine Lifter.liftAll_of_facts_map (d := k.membership) htable ?_
  intro n hn
  obtain ⟨-, v, hv, rfl⟩ := mem_nodesOf.mp hn
  exact liftTuple_single rfl (hk.lift_node hid (List.mem_map_of_mem hv))

theorem fields_liftBack (h : derive g skip Enrichment.none = .ok s) {roots : List Node}
    {facts : List Fact} {fs : FactSet}
    (hfs : (FactSet.ofRelations s.inputs).addAll facts = .ok fs)
    (hcovers : s.Covers (visitsOfRoots roots) fs)
    (hk : l.Knows ((visitsOfRoots roots).map (·.2))) (hr : l.registry = s.registry)
    {k : KindSchema} (hkind : k ∈ s.kinds) (hf : k.Fits s.registry) {p : FieldProjection}
    (hp : p ∈ k.fields) :
    ∃ d tuples, fs.table? (k.name ++ "_" ++ p.field) = some (d, tuples) ∧
      List.Forall₂ (fun e t =>
          p.Lifts ((visitsOfRoots roots).map (·.2)) e.1 e.2 (l.liftTuple d t))
        (p.slotsOf (nodesOf k.name (visitsOfRoots roots))) tuples := by
  obtain ⟨tuples, htuples, hfills⟩ := hcovers.fields k hkind p hp
  have hname : k.name ++ "_" ++ p.field = (p.toRelation k.idType).name :=
    ((derive_source h).2 k hkind p hp).symm
  have hid : l.registry.classify k.idType = .ok .nodeId := hr ▸ hf.id
  have hfits : p.Fits l.registry := hr ▸ hf.fields p hp
  have hcontext : (s.context k p).registry = l.registry := hr.symm
  rw [hname] at htuples ⊢
  refine ⟨_, tuples, table?_eq_some_of_facts h hfs (toRelation_mem_inputs h hkind hp) htuples, ?_⟩
  refine List.forall₂_iff_zip.mpr ⟨hfills.length_eq, ?_⟩
  intro e t hzip
  obtain ⟨hn, hslot, hnodes⟩ := mem_slotsOf (List.of_mem_zip hzip).1
  exact FieldProjection.lifts_of_fills hk hfits hcontext hid hn hnodes hslot
    (List.forall₂_zip hfills hzip)

/-- Lifting undoes encoding. The nodes of an encoded forest can be indexed, and with their index every
tuple is lifted back to the nodes that it was made from, but for dangling bare references. -/
theorem encodeAll_liftsBack (hg : g.NamesEnums) (h : derive g skip Enrichment.none = .ok s)
    {roots : List Node} {fs : FactSet} {warnings : List Warning}
    (hfs : s.encodeAll Enrichment.none roots = .ok (fs, warnings)) :
    ∃ ix, NodeIndex.ofRoots roots = .ok ix ∧
      s.LiftsBack ⟨s.registry, ix⟩ (visitsOfRoots roots) fs := by
  obtain ⟨out, hout, hadd⟩ := encodeAll_eq_ok hfs
  have honce : out.facts ++ Enrichment.none.once = out.facts := List.append_nil _
  rw [honce] at hadd
  rw [walkAll_eq] at hout
  have hcovers := covers_of_walkFacts h hout hadd
  have hf := (derive_fits hg Enrichment.none_sound h).1
  obtain ⟨ix, hix, hget⟩ := NodeIndex.ofRoots_eq_ok (walkAll_eq roots ▸ hcovers.ids_nodup)
  refine ⟨ix, hix, ?_⟩
  -- The identifiers are distinct, so each is found with its node, and none means absent.
  have hk : (⟨s.registry, ix⟩ : Lifter).Knows ((visitsOfRoots roots).map (·.2)) := by
    constructor
    · intro id n
      rw [hget id n, walkAll_eq, List.mem_map]
    · intro n hn
      obtain ⟨v, hv, rfl⟩ := List.mem_map.mp hn
      exact hcovers.ids_nonneg v hv
  obtain ⟨hsrc, hparent⟩ := tree_liftsBack h hadd hcovers hk
  have hmembers := fun k hkind hc => members_liftBack h hadd hcovers hk hkind hc (hf k hkind).id
  have hfields := fun k hkind p hp =>
    fields_liftBack (p := p) h hadd hcovers hk rfl hkind (hf k hkind) hp
  refine ⟨?_, hsrc, hparent, hmembers, hfields⟩
  intro name d tuples htable t ht
  rcases hcovers.relations (FactSet.facts_of_table? htable) with
    rfl | rfl | ⟨k, hkind, hc, rfl | ⟨p, hp, rfl⟩⟩
  · exact Or.inl (Lifter.isOk_of_liftAll htable hsrc ht)
  · exact Or.inl (Lifter.isOk_of_liftAll htable hparent ht)
  · exact Or.inl (Lifter.isOk_of_liftAll htable (hmembers k hkind hc) ht)
  · obtain ⟨d', tuples', htable', hall⟩ := hfields k hkind p hp
    rw [htable] at htable'
    cases htable'
    obtain ⟨e, he, hlifts⟩ := exists_of_forall₂ hall ht
    cases hlift : Lifter.liftTuple ⟨s.registry, ix⟩ d t with
    | ok fact => exact Or.inl ⟨fact, rfl⟩
    | error err =>
      rw [hlift] at hlifts
      obtain ⟨id, rfl, hwrites, hmissing⟩ := hlifts
      exact Or.inr ⟨id, rfl, ⟨k, hkind, p, hp, e, he, hwrites⟩, hmissing⟩

theorem encodeAll_liftsBack_arithmetic :
    arithmetic.NamesEnums ∧ derive arithmetic .empty .none = .ok arithmeticSchema ∧
      arithmeticSchema.encodeAll .none arithmeticForest = .ok (arithmeticFacts, []) ∧
      ∃ ix, NodeIndex.ofRoots arithmeticForest = .ok ix ∧
        arithmeticSchema.LiftsBack ⟨arithmeticSchema.registry, ix⟩
          (visitsOfRoots arithmeticForest) arithmeticFacts :=
  ⟨namesEnums_arithmetic, derive_arithmetic, encodeAll_arithmetic,
    encodeAll_liftsBack namesEnums_arithmetic derive_arithmetic encodeAll_arithmetic⟩

end Schema

end TreeFacts
