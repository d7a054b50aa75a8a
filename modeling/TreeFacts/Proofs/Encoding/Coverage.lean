import TreeFacts.Proofs.Encoding.Fitting

namespace TreeFacts

/-- The nodes of the given kind in the order of a walk. -/
def nodesOf (kind : String) (visits : List Visit) : List Node :=
  (visits.map (·.2)).filter fun n => n.kind = kind

/-- The nodes that stand in another, each behind the one it stands in, in the order of a walk. -/
def embeddings (visits : List Visit) : List (Node × Node) :=
  visits.filterMap fun v => v.1.map (·, v.2)

theorem mem_nodesOf {kind : String} {visits : List Visit} {n : Node} :
    n ∈ nodesOf kind visits ↔ n.kind = kind ∧ ∃ v ∈ visits, v.2 = n := by
  simp [nodesOf, and_comm]

theorem flatMap_nodesOf {α : Type} {kind : String} {visits : List Visit} {f : Visit → List α}
    (own : Node → List α)
    (h : ∀ v ∈ visits, f v = if v.2.kind = kind then own v.2 else []) :
    visits.flatMap f = (nodesOf kind visits).flatMap own := by
  induction visits with
  | nil => rfl
  | cons v rest ih =>
    have hrest := ih fun w hw => h w (List.mem_cons_of_mem _ hw)
    rw [List.flatMap_cons, h v List.mem_cons_self, hrest]
    by_cases hv : v.2.kind = kind
    · rw [if_pos hv]
      simp [nodesOf, hv]
    · rw [if_neg hv]
      simp [nodesOf, hv]

namespace FieldProjection

def slotsOf (p : FieldProjection) (nodes : List Node) : List (Node × Slot) :=
  nodes.flatMap fun n => (p.slots (n.value p.field)).map (n, ·)

theorem tuplesUnder_flatMap_fields {ps : List FieldProjection} (hn : (ps.map (·.relation)).Nodup)
    (own : FieldProjection → List Tuple) {p : FieldProjection} (hp : p ∈ ps) :
    tuplesUnder p.relation (ps.flatMap fun q => (own q).map (q.relation, ·)) = own p := by
  induction ps with
  | nil => simp at hp
  | cons q ps ih =>
    obtain ⟨hfresh, hrest⟩ := List.nodup_cons.mp hn
    rw [List.flatMap_cons, tuplesUnder_append]
    -- The other fields have relations of other names, and so nothing under this one.
    rcases List.mem_cons.mp hp with rfl | hp'
    · have hnone : tuplesUnder p.relation (ps.flatMap fun q => (own q).map (q.relation, ·)) = [] := by
        refine tuplesUnder_eq_nil ?_
        intro fact hfact heq
        obtain ⟨q, hq, hfact⟩ := List.mem_flatMap.mp hfact
        obtain ⟨t, -, rfl⟩ := List.mem_map.mp hfact
        exact hfresh (List.mem_map.mpr ⟨q, hq, heq⟩)
      rw [tuplesUnder_map_self, hnone, List.append_nil]
    · have hne : q.relation ≠ p.relation := fun heq =>
        hfresh (List.mem_map.mpr ⟨p, hp', heq.symm⟩)
      have hnone : tuplesUnder p.relation ((own q).map (q.relation, ·)) = [] := by
        refine tuplesUnder_eq_nil ?_
        intro fact hfact
        obtain ⟨t, -, rfl⟩ := List.mem_map.mp hfact
        exact hne
      rw [hnone, List.nil_append, ih hrest hp']

end FieldProjection

namespace Schema

variable {g : Grammar} {skip : SkipSet} {e : Enrichment} {s : Schema} {k : KindSchema}

theorem name_of_mem_fieldFacts {n : Node} {fact : Fact}
    (h : fact ∈ k.fields.flatMap fun p => (s.fieldTuples k n p).map (p.relation, ·)) :
    fact.1 ∈ k.fields.map (·.relation) := by
  obtain ⟨p, hp, h⟩ := List.mem_flatMap.mp h
  obtain ⟨t, -, rfl⟩ := List.mem_map.mp h
  exact List.mem_map_of_mem hp

/-- The facts of a node's fields are none of those that hold whatever its fields are. -/
theorem tuplesUnder_kindFacts_of_notMem {name : String}
    (hname : name ∉ k.fields.map (·.relation)) (v : Visit) :
    tuplesUnder name (s.kindFacts k v) = tuplesUnder name (nodeFacts k v) := by
  have hnone : tuplesUnder name
      (k.fields.flatMap fun p => (s.fieldTuples k v.2 p).map (p.relation, ·)) = [] :=
    tuplesUnder_eq_nil fun fact hfact heq => hname (heq ▸ name_of_mem_fieldFacts hfact)
  rw [kindFacts, tuplesUnder_append, hnone, List.append_nil]

theorem tuplesUnder_nodeFacts (k : KindSchema) (v : Visit) (name : String) :
    tuplesUnder name (nodeFacts k v) =
      (if k.name = name then [[.number v.2.id]] else []) ++
        (if srcRelation.name = name then [[.number v.2.id, .symbol (sanitize v.2.src)]] else []) ++
        (if parentRelation.name = name then
          (v.1.map fun parent => [.number parent.id, .number v.2.id]).toList else []) := by
  obtain ⟨parent, n⟩ := v
  rw [nodeFacts, tuplesUnder_append, tuplesUnder_cons, tuplesUnder_cons]
  have hnil : tuplesUnder name [] = [] := rfl
  rw [hnil]
  congr 1
  · split <;> split <;> rfl
  · cases parent with
    | none =>
      simp only [hnil]
      split <;> rfl
    | some parent =>
      simp only [tuplesUnder_cons, hnil]
      split <;> rfl

theorem parent_ne_src : parentRelation.name ≠ srcRelation.name := by decide

/-- What a node has in a relation that is filled for its kind. -/
theorem tuplesUnder_kindFacts (h : derive g skip e = .ok s) (hk : k ∈ s.kinds)
    (hc : k.isAbstract = false) (v : Visit) :
    tuplesUnder k.name (s.kindFacts k v) = [[.number v.2.id]] ∧
      ∀ p ∈ k.fields, tuplesUnder p.relation (s.kindFacts k v) = s.fieldTuples k v.2 p := by
  obtain ⟨hrelations, hfresh⟩ := nodup_relations h hk hc
  have htree := (nodup_names h).2 k hk
  rw [KindSchema.names_eq hc] at htree
  constructor
  · obtain ⟨hparent, hsrc⟩ := htree k.name List.mem_cons_self
    rw [tuplesUnder_kindFacts_of_notMem hfresh, tuplesUnder_nodeFacts, if_pos rfl,
      if_neg (Ne.symm hsrc), if_neg (Ne.symm hparent)]
    rfl
  · intro p hp
    have hmem : p.relation ∈ k.fields.map (·.relation) := List.mem_map_of_mem hp
    obtain ⟨hparent, hsrc⟩ := htree p.relation (List.mem_cons_of_mem _ hmem)
    have hname : k.name ≠ p.relation := fun heq => hfresh (heq ▸ hmem)
    rw [kindFacts, tuplesUnder_append, tuplesUnder_nodeFacts, if_neg hname,
      if_neg (Ne.symm hsrc), if_neg (Ne.symm hparent),
      FieldProjection.tuplesUnder_flatMap_fields hrelations _ hp]
    rfl

/-- A node has nothing in the relations that are filled for other kinds. -/
theorem tuplesUnder_kindFacts_of_ne (h : derive g skip e = .ok s) {k' : KindSchema}
    (hk : k ∈ s.kinds) (hk' : k' ∈ s.kinds) (hc' : k'.isAbstract = false) (hne : k ≠ k')
    {name : String} (hn : name ∈ k.names) (v : Visit) :
    tuplesUnder name (s.kindFacts k' v) = [] := by
  have hother : name ∉ k'.names := fun hn' => hne (eq_of_mem_names h hk hk' hn hn')
  rw [KindSchema.names_eq hc', List.mem_cons, not_or] at hother
  obtain ⟨hparent, hsrc⟩ := (nodup_names h).2 k hk name hn
  rw [tuplesUnder_kindFacts_of_notMem hother.2, tuplesUnder_nodeFacts,
    if_neg (Ne.symm hother.1), if_neg (Ne.symm hsrc), if_neg (Ne.symm hparent)]
  rfl

theorem tuplesUnder_factsOf (h : derive g skip e = .ok s) (hk : k ∈ s.kinds)
    {name : String} (hn : name ∈ k.names) {v : Visit} (hv : s.Encodes v.2) :
    tuplesUnder name (s.factsOf v) =
      if v.2.kind = k.name then tuplesUnder name (s.kindFacts k v) else [] := by
  obtain ⟨k', hkind, hc', -⟩ := hv
  obtain ⟨hk', hname⟩ := (kind?_eq_some h).mp hkind
  rw [factsOf, hkind, Option.map_some, Option.getD_some]
  split
  next heq =>
    have hsame : some k' = some k := hkind.symm.trans ((kind?_eq_some h).mpr ⟨hk, heq.symm⟩)
    cases hsame
    rfl
  next hne =>
    refine tuplesUnder_kindFacts_of_ne h hk hk' hc' ?_ hn v
    rintro rfl
    exact hne hname.symm

theorem tuplesUnder_factsOf_tree (h : derive g skip e = .ok s) {v : Visit} (hv : s.Encodes v.2) :
    tuplesUnder srcRelation.name (s.factsOf v) =
        [[.number v.2.id, .symbol (sanitize v.2.src)]] ∧
      tuplesUnder parentRelation.name (s.factsOf v) =
        (v.1.map fun parent => [.number parent.id, .number v.2.id]).toList := by
  obtain ⟨k, hkind, hc, -⟩ := hv
  obtain ⟨hk, -⟩ := (kind?_eq_some h).mp hkind
  have htree := (nodup_names h).2 k hk
  rw [KindSchema.names_eq hc] at htree
  obtain ⟨hparent, hsrc⟩ := htree k.name List.mem_cons_self
  rw [factsOf, hkind, Option.map_some, Option.getD_some]
  constructor
  · rw [tuplesUnder_kindFacts_of_notMem, tuplesUnder_nodeFacts, if_neg hsrc, if_pos rfl,
      if_neg parent_ne_src]
    · rfl
    · exact fun hmem => (htree _ (List.mem_cons_of_mem _ hmem)).2 rfl
  · rw [tuplesUnder_kindFacts_of_notMem, tuplesUnder_nodeFacts, if_neg hparent,
      if_neg (Ne.symm parent_ne_src), if_pos rfl]
    · rfl
    · exact fun hmem => (htree _ (List.mem_cons_of_mem _ hmem)).1 rfl

/-- The facts account for every node once, and for every field of it once, in the order of the
visits. -/
structure Covers (s : Schema) (visits : List Visit) (fs : FactSet) : Prop where
  ids_nodup : (visits.map (·.2.id)).Nodup
  ids_nonneg : ∀ v ∈ visits, 0 ≤ v.2.id
  concrete : ∀ v ∈ visits, ∃ k ∈ s.kinds, k.name = v.2.kind ∧ k.isAbstract = false
  src : fs.facts "src" =
    .ok (visits.map fun v => [.number v.2.id, .symbol (sanitize v.2.src)])
  parent : fs.facts "parent" =
    .ok ((embeddings visits).map fun e => [.number e.1.id, .number e.2.id])
  members : ∀ k ∈ s.kinds, k.isAbstract = false →
    fs.facts k.name = .ok ((nodesOf k.name visits).map fun n => [.number n.id])
  fields : ∀ k ∈ s.kinds, ∀ p ∈ k.fields, ∃ tuples,
    fs.facts (k.name ++ "_" ++ p.field) = .ok tuples ∧
      List.Forall₂ (fun e t => p.Fills (s.context k p) (.number e.1.id) e.2 t)
        (p.slotsOf (nodesOf k.name visits)) tuples
  relations : ∀ {name tuples}, fs.facts name = .ok tuples → name = "src" ∨ name = "parent" ∨
    ∃ k ∈ s.kinds, k.isAbstract = false ∧
      (name = k.name ∨ ∃ p ∈ k.fields, name = k.name ++ "_" ++ p.field)

theorem fieldTuples_fills {n : Node} (hn : s.Encodes n) (h : derive g skip e = .ok s)
    (hk : k ∈ s.kinds) (hkind : n.kind = k.name) {p : FieldProjection} (hp : p ∈ k.fields) :
    List.Forall₂ (p.Fills (s.context k p) (.number n.id)) (p.slots (n.value p.field))
      (s.fieldTuples k n p) := by
  obtain ⟨k', hk', -, hps⟩ := hn
  have hsame : some k' = some k := hk'.symm.trans ((kind?_eq_some h).mpr ⟨hk, hkind.symm⟩)
  cases hsame
  exact FieldProjection.tuples_fills (hps p hp)

theorem slotsOf_fills {nodes : List Node} (hn : ∀ n ∈ nodes, s.Encodes n ∧ n.kind = k.name)
    (h : derive g skip e = .ok s) (hk : k ∈ s.kinds) {p : FieldProjection} (hp : p ∈ k.fields) :
    List.Forall₂ (fun e t => p.Fills (s.context k p) (.number e.1.id) e.2 t) (p.slotsOf nodes)
      (nodes.flatMap fun n => s.fieldTuples k n p) := by
  induction nodes with
  | nil => exact .nil
  | cons n nodes ih =>
    obtain ⟨hencodes, hkind⟩ := hn n List.mem_cons_self
    have hrest := ih fun m hm => hn m (List.mem_cons_of_mem _ hm)
    have hfirst : List.Forall₂ (fun e t => p.Fills (s.context k p) (.number e.1.id) e.2 t)
        ((p.slots (n.value p.field)).map (n, ·)) (s.fieldTuples k n p) :=
      List.forall₂_map_left_iff.mpr (fieldTuples_fills hencodes h hk hkind hp)
    rw [List.flatMap_cons]
    exact List.rel_append hfirst hrest

theorem name_of_facts_eq_ok (h : derive g skip Enrichment.none = .ok s) {facts : List Fact}
    {fs : FactSet} (hfs : (FactSet.ofRelations s.inputs).addAll facts = .ok fs) {name : String}
    {tuples : List Tuple} (hname : fs.facts name = .ok tuples) :
    name = "src" ∨ name = "parent" ∨ ∃ k ∈ s.kinds, k.isAbstract = false ∧
      (name = k.name ∨ ∃ p ∈ k.fields, name = k.name ++ "_" ++ p.field) := by
  unfold FactSet.facts at hname
  split at hname
  next d ts htable =>
    obtain ⟨hd, rfl, -⟩ := mem_inputs_of_table? h hfs htable
    obtain ⟨_, _, _, derived, -, -, -, hderived, hinputs, -⟩ := derive_eq_ok h
    cases hderived
    rw [hinputs] at hd
    simp only [List.append_nil, List.mem_append, List.mem_cons, List.not_mem_nil, or_false] at hd
    rcases hd with (rfl | rfl) | hd
    · exact Or.inr (Or.inl rfl)
    · exact Or.inl rfl
    · obtain ⟨k, hk, hd⟩ := List.mem_flatMap.mp hd
      unfold KindSchema.inputs at hd
      split at hd
      next => simp at hd
      next hc =>
        refine Or.inr (Or.inr ⟨k, hk, by simpa using hc, ?_⟩)
        rcases List.mem_cons.mp hd with rfl | hd
        · exact Or.inl rfl
        · obtain ⟨p, hp, rfl⟩ := List.mem_map.mp hd
          exact Or.inr ⟨p, hp, (derive_source h).2 k hk p hp⟩
  next => cases hname

theorem facts_eq_flatMap (h : derive g skip Enrichment.none = .ok s) {visits : List Visit}
    {fs : FactSet}
    (hfs : (FactSet.ofRelations s.inputs).addAll (visits.flatMap s.factsOf) = .ok fs)
    {d : Relation} (hd : d ∈ s.inputs) :
    fs.facts d.name = .ok (visits.flatMap fun v => tuplesUnder d.name (s.factsOf v)) := by
  have htable := table?_of_addAll_inputs h hfs hd
  rw [FactSet.facts_of_table? htable, tuplesUnder_flatMap]

theorem facts_src (h : derive g skip Enrichment.none = .ok s) {visits : List Visit} {fs : FactSet}
    (hencodes : ∀ v ∈ visits, s.Encodes v.2)
    (hfs : (FactSet.ofRelations s.inputs).addAll (visits.flatMap s.factsOf) = .ok fs) :
    fs.facts "src" = .ok (visits.map fun v => [.number v.2.id, .symbol (sanitize v.2.src)]) := by
  have hall := facts_eq_flatMap h hfs (tree_mem_inputs h).2
  rw [List.flatMap_congr fun v hv => (tuplesUnder_factsOf_tree h (hencodes v hv)).1] at hall
  exact hall.trans (congrArg _ (List.flatMap_pure_eq_map _ visits))

theorem facts_parent (h : derive g skip Enrichment.none = .ok s) {visits : List Visit}
    {fs : FactSet} (hencodes : ∀ v ∈ visits, s.Encodes v.2)
    (hfs : (FactSet.ofRelations s.inputs).addAll (visits.flatMap s.factsOf) = .ok fs) :
    fs.facts "parent" =
      .ok ((embeddings visits).map fun e => [.number e.1.id, .number e.2.id]) := by
  have hall := facts_eq_flatMap h hfs (tree_mem_inputs h).1
  rw [List.flatMap_congr fun v hv => (tuplesUnder_factsOf_tree h (hencodes v hv)).2,
    ← List.filterMap_eq_flatMap_toList] at hall
  refine hall.trans (congrArg _ ?_)
  rw [embeddings, List.map_filterMap]
  simp only [Option.map_map]
  rfl

theorem facts_members (h : derive g skip Enrichment.none = .ok s) {visits : List Visit}
    {fs : FactSet} (hencodes : ∀ v ∈ visits, s.Encodes v.2)
    (hfs : (FactSet.ofRelations s.inputs).addAll (visits.flatMap s.factsOf) = .ok fs)
    (hk : k ∈ s.kinds) (hc : k.isAbstract = false) :
    fs.facts k.name = .ok ((nodesOf k.name visits).map fun n => [.number n.id]) := by
  have hname : k.name ∈ k.names := by
    rw [KindSchema.names_eq hc]
    exact List.mem_cons_self
  have hown : ∀ v ∈ visits, tuplesUnder k.name (s.factsOf v) =
      if v.2.kind = k.name then [[.number v.2.id]] else [] := by
    intro v hv
    have hv' := tuplesUnder_factsOf h hk hname (hencodes v hv)
    rwa [(tuplesUnder_kindFacts h hk hc v).1] at hv'
  have hall := facts_eq_flatMap h hfs (membership_mem_inputs h hk hc)
  refine hall.trans (congrArg _ ?_)
  have hnodes := flatMap_nodesOf (fun n => [[FactValue.number n.id]]) hown
  exact hnodes.trans (List.flatMap_pure_eq_map _ (nodesOf k.name visits))

theorem facts_field (h : derive g skip Enrichment.none = .ok s) {visits : List Visit}
    {fs : FactSet} (hencodes : ∀ v ∈ visits, s.Encodes v.2)
    (hfs : (FactSet.ofRelations s.inputs).addAll (visits.flatMap s.factsOf) = .ok fs)
    (hk : k ∈ s.kinds) {p : FieldProjection} (hp : p ∈ k.fields) :
    fs.facts p.relation =
      .ok ((nodesOf k.name visits).flatMap fun n => s.fieldTuples k n p) := by
  have hc := isAbstract_eq_false h hk hp
  have hname : p.relation ∈ k.names := by
    rw [KindSchema.names_eq hc]
    exact List.mem_cons_of_mem _ (List.mem_map_of_mem hp)
  have hown : ∀ v ∈ visits, tuplesUnder p.relation (s.factsOf v) =
      if v.2.kind = k.name then s.fieldTuples k v.2 p else [] := by
    intro v hv
    have hv' := tuplesUnder_factsOf h hk hname (hencodes v hv)
    rwa [(tuplesUnder_kindFacts h hk hc v).2 p hp] at hv'
  have hall := facts_eq_flatMap h hfs (toRelation_mem_inputs h hk hp)
  exact hall.trans (congrArg _ (flatMap_nodesOf (fun n => s.fieldTuples k n p) hown))

theorem covers_of_walkFacts (h : derive g skip Enrichment.none = .ok s) {visits : List Visit}
    {out : Encoded} (hout : s.walkFacts .none [] visits = .ok out) {fs : FactSet}
    (hfs : (FactSet.ofRelations s.inputs).addAll out.facts = .ok fs) : s.Covers visits fs := by
  obtain ⟨hnodup, hids, hencodes, hfacts⟩ := walkFacts_eq_ok hout
  -- Nothing enriches the facts, so they are those of the nodes alone.
  have hplain : out.facts = visits.flatMap s.factsOf := by
    rw [hfacts]
    refine List.flatMap_congr fun v _ => ?_
    exact List.append_nil _
  rw [hplain] at hfs
  refine ⟨hnodup, fun v hv => (hids v hv).1, ?_, facts_src h hencodes hfs,
    facts_parent h hencodes hfs, fun k hk hc => facts_members h hencodes hfs hk hc, ?_,
    fun hname => name_of_facts_eq_ok h hfs hname⟩
  · intro v hv
    obtain ⟨k, hkind, hc, -⟩ := hencodes v hv
    obtain ⟨hk, hname⟩ := (kind?_eq_some h).mp hkind
    exact ⟨k, hk, hname, hc⟩
  · intro k hk p hp
    have hfield := facts_field h hencodes hfs hk hp
    rw [(derive_source h).2 k hk p hp] at hfield
    refine ⟨_, hfield, slotsOf_fills ?_ h hk hp⟩
    intro n hn
    obtain ⟨hkind, v, hv, rfl⟩ := mem_nodesOf.mp hn
    exact ⟨hencodes v hv, hkind⟩

theorem covers_of_encodeAll (h : derive g skip Enrichment.none = .ok s) {roots : List Node}
    {fs : FactSet} {warnings : List Warning}
    (hfs : s.encodeAll Enrichment.none roots = .ok (fs, warnings)) :
    s.Covers (visitsOfRoots roots) fs := by
  obtain ⟨out, hout, hadd⟩ := encodeAll_eq_ok hfs
  have honce : out.facts ++ Enrichment.none.once = out.facts := List.append_nil _
  rw [honce] at hadd
  rw [walkAll_eq] at hout
  exact covers_of_walkFacts h hout hadd

/-- Encoding a forest loses nothing and adds nothing. The facts account for each node of the trees
and each field of it that is not skipped, once and in order. -/
theorem encodeAll_covers (h : derive g skip Enrichment.none = .ok s) {roots : List Node}
    {fs : FactSet} {warnings : List Warning}
    (hfs : s.encodeAll Enrichment.none roots = .ok (fs, warnings)) :
    s.kinds.map KindSchema.source = g.kinds.map (NodeKind.without skip) ∧
      walkAll roots = visitsOfRoots roots ∧ s.Covers (visitsOfRoots roots) fs :=
  ⟨(derive_source h).1, walkAll_eq roots, covers_of_encodeAll h hfs⟩

theorem encodeAll_covers_arithmetic :
    derive arithmetic .empty .none = .ok arithmeticSchema ∧
      arithmeticSchema.encodeAll .none arithmeticForest = .ok (arithmeticFacts, []) ∧
      arithmeticSchema.Covers (visitsOfRoots arithmeticForest) arithmeticFacts := by
  refine ⟨derive_arithmetic, encodeAll_arithmetic, ?_⟩
  exact (encodeAll_covers derive_arithmetic encodeAll_arithmetic).2.2

end Schema

end TreeFacts
