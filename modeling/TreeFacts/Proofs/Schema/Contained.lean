import TreeFacts.Proofs.Schema.Restriction
import TreeFacts.Proofs.Types.Layered

namespace TreeFacts

theorem filter_name_eq_singleton {α : Type} {name : α → String} {as : List α}
    (hn : (as.map name).Nodup) {a : α} (ha : a ∈ as) :
    as.filter (fun b => name b == name a) = [a] := by
  induction as with
  | nil => cases ha
  | cons first rest ih =>
    obtain ⟨hfresh, hrest⟩ := List.nodup_cons.mp hn
    rcases List.mem_cons.mp ha with rfl | ha
    · have hnone : rest.filter (fun b => name b == name a) = [] := by
        refine List.filter_eq_nil_iff.mpr fun b hb heq => ?_
        exact hfresh (List.mem_map.mpr ⟨b, hb, beq_iff_eq.mp heq⟩)
      have hself : (name a == name a) = true := beq_self_eq_true (name a)
      rw [List.filter_cons, if_pos hself, hnone]
    · have hne : name first ≠ name a := fun heq => hfresh (List.mem_map.mpr ⟨a, ha, heq.symm⟩)
      rw [List.filter_cons, if_neg (fun heq => hne (beq_iff_eq.mp heq)), ih hrest ha]

/-- The types of all columns are defined. -/
def Relation.DefinedIn (defs : List TypeDef) (d : Relation) : Prop :=
  ∀ column ∈ d.columns, column.2.DefinedIn defs

@[simp] theorem Relation.definedIn_nil (defs : List TypeDef) (name : String) :
    Relation.DefinedIn defs ⟨name, []⟩ :=
  fun _ hcolumn => absurd hcolumn List.not_mem_nil

@[simp] theorem Relation.definedIn_cons {defs : List TypeDef} {name column : String}
    {type : ColumnType} {columns : FieldTypes} :
    Relation.DefinedIn defs ⟨name, (column, type) :: columns⟩ ↔
      type.DefinedIn defs ∧ Relation.DefinedIn defs ⟨name, columns⟩ :=
  List.forall_mem_cons

namespace FieldProjection

variable {r r' : Registry} {kind : String} {p : FieldProjection}

theorem derive_layered (hl : r.Layered) {field : Field} (h : derive r kind field = .ok (p, r')) :
    r'.Layered ∧ p.valueType.DefinedIn r'.defs := by
  obtain ⟨element, r₁, valueType, hresolve, rfl, hshape⟩ := derive_eq_ok h
  obtain ⟨hl₁, helement⟩ := hl.resolve hresolve
  rcases hshape with ⟨-, hlist⟩ | ⟨-, rfl, rfl⟩
  · exact hl₁.listType helement hlist
  · exact ⟨hl₁, helement⟩

theorem deriveAll_layered (hl : r.Layered) {fields : List Field} {ps : List FieldProjection}
    (h : deriveAll kind r fields = .ok (ps, r')) :
    r'.Layered ∧ ∀ p ∈ ps, p.valueType.DefinedIn r'.defs := by
  induction fields generalizing r ps with
  | nil =>
    cases h
    exact ⟨hl, by simp⟩
  | cons field fields ih =>
    unfold deriveAll at h
    obtain ⟨⟨p, r₁⟩, hp, h⟩ := bind_eq_ok.mp h
    obtain ⟨⟨rest, r₂⟩, hrest, h⟩ := bind_eq_ok.mp h
    cases h
    obtain ⟨hl₁, hvalue⟩ := derive_layered hl hp
    obtain ⟨hl', hall⟩ := ih hl₁ hrest
    refine ⟨hl', fun q hq => ?_⟩
    rcases List.mem_cons.mp hq with rfl | hq
    · exact hvalue.mono (deriveAll_grows hrest).extends.defs.subset
    · exact hall q hq

theorem toRelation_definedIn (hl : r.Layered) {idType : ColumnType} (hid : idType.DefinedIn r.defs)
    (hp : p.valueType.DefinedIn r.defs) : (p.toRelation idType).DefinedIn r.defs := by
  have hbool := hl.bool_definedIn
  unfold toRelation
  cases p.shape <;> simp [hid, hp, hbool]

end FieldProjection

namespace KindSchema

variable {r r' : Registry} {skip : SkipSet} {k : KindSchema}

/-- The types of a kind's identifiers and of its fields are defined. -/
structure DefinedIn (defs : List TypeDef) (k : KindSchema) : Prop where
  idType : k.idType.DefinedIn defs
  fields : ∀ p ∈ k.fields, p.valueType.DefinedIn defs

theorem DefinedIn.mono {defs defs' : List TypeDef} (hsub : defs ⊆ defs') (hk : k.DefinedIn defs) :
    k.DefinedIn defs' where
  idType := hk.idType.mono hsub
  fields p hp := (hk.fields p hp).mono hsub

theorem derive_layered (hl : r.Layered) {kind : NodeKind} (h : derive skip r kind = .ok (k, r')) :
    r'.Layered ∧ k.DefinedIn r'.defs := by
  obtain ⟨idType, r₁, ps, hid, hps, rfl⟩ := derive_eq_ok h
  obtain ⟨hl₁, htype⟩ := hl.identifierType hid
  obtain ⟨hl', hall⟩ := FieldProjection.deriveAll_layered hl₁ hps
  exact ⟨hl', htype.mono (FieldProjection.deriveAll_grows hps).extends.defs.subset, hall⟩

theorem deriveAll_layered (hl : r.Layered) {kinds : List NodeKind} {ks : List KindSchema}
    (h : deriveAll skip r kinds = .ok (ks, r')) :
    r'.Layered ∧ ∀ k ∈ ks, k.DefinedIn r'.defs := by
  induction kinds generalizing r ks with
  | nil =>
    cases h
    exact ⟨hl, by simp⟩
  | cons kind kinds ih =>
    unfold deriveAll at h
    obtain ⟨⟨k, r₁⟩, hk, h⟩ := bind_eq_ok.mp h
    obtain ⟨⟨rest, r₂⟩, hrest, h⟩ := bind_eq_ok.mp h
    cases h
    obtain ⟨hl₁, hfirst⟩ := derive_layered hl hk
    obtain ⟨hl', hall⟩ := ih hl₁ hrest
    refine ⟨hl', fun other hother => ?_⟩
    rcases List.mem_cons.mp hother with rfl | hother
    · exact hfirst.mono (deriveAll_grows hrest).1.extends.defs.subset
    · exact hall other hother

theorem DefinedIn.membership {defs : List TypeDef} (hk : k.DefinedIn defs) :
    k.membership.DefinedIn defs :=
  Relation.definedIn_cons.mpr ⟨hk.idType, Relation.definedIn_nil defs k.name⟩

theorem DefinedIn.inputs (hl : r.Layered) (hk : k.DefinedIn r.defs) :
    ∀ d ∈ k.inputs, d.DefinedIn r.defs := by
  intro d hd
  unfold KindSchema.inputs at hd
  split at hd
  next => cases hd
  next =>
    rcases List.mem_cons.mp hd with rfl | hd
    · exact hk.membership
    · obtain ⟨p, hp, rfl⟩ := List.mem_map.mp hd
      exact FieldProjection.toRelation_definedIn hl hk.idType (hk.fields p hp)

end KindSchema

/-- An enrichment defines the types of its relations like those of the kinds, each on the ground of
others. -/
def Enrichment.Layers (e : Enrichment) : Prop :=
  ∀ {r r' : Registry} {relations : List Relation}, r.Layered → e.declare r = .ok (relations, r') →
    r.Extends r' ∧ r'.Layered ∧ ∀ d ∈ relations, d.DefinedIn r'.defs

theorem Enrichment.none_layers : none.Layers := by
  intro r r' relations hl h
  cases h
  exact ⟨.refl _, hl, by simp⟩

theorem Solidity.relations_definedIn {defs : List TypeDef}
    {expression call function declaration : ColumnType}
    (htypes : ∀ type ∈ [expression, call, function, declaration], type.DefinedIn defs) :
    ∀ d ∈ relations expression call function declaration, d.DefinedIn defs := by
  simp only [List.forall_mem_cons] at htypes
  obtain ⟨hexpression, hcall, hfunction, hdeclaration, -⟩ := htypes
  simp [relations, hexpression, hcall, hfunction, hdeclaration]

theorem Solidity.enrichment_layers (version? : Option Version) : (enrichment version?).Layers := by
  intro r r' rs hl h
  refine ⟨(declareRelations_grows h).extends, ?_⟩
  obtain ⟨expression, call, function, declaration, r₁, r₂, r₃, h₁, h₂, h₃, h₄, rfl⟩ :=
    declareRelations_eq_ok h
  obtain ⟨hl₁, hexpression⟩ := hl.identifierType h₁
  obtain ⟨hl₂, hcall⟩ := hl₁.identifierType h₂
  obtain ⟨hl₃, hfunction⟩ := hl₂.identifierType h₃
  obtain ⟨hl₄, hdeclaration⟩ := hl₃.identifierType h₄
  have he₄ := Registry.identifierType_extends h₄
  have he₃ := (Registry.identifierType_extends h₃).trans he₄
  have he₂ := (Registry.identifierType_extends h₂).trans he₃
  refine ⟨hl₄, relations_definedIn ?_⟩
  simp only [List.forall_mem_cons]
  exact ⟨hexpression.mono he₂.defs.subset, hcall.mono he₃.defs.subset,
    hfunction.mono he₄.defs.subset, hdeclaration, by simp⟩

namespace Schema

variable {g : Grammar} {skip : SkipSet} {e : Enrichment} {s : Schema}

theorem derive_layered (he : e.Layers) (h : derive g skip e = .ok s) :
    s.registry.Layered ∧ ∀ d ∈ s.relations, d.DefinedIn s.registry.defs := by
  obtain ⟨r₀, r₁, r₂, derived, henums, hr₁, hkinds, hderived, hinputs, -, hmarkers, -⟩ :=
    derive_eq_ok h
  have hl₀ := Registry.Layered.empty.registerEnums henums
  obtain ⟨hl₂, hdefined⟩ := KindSchema.deriveAll_layered (hl₀.registerKinds hr₁) hkinds
  obtain ⟨hextends, hl, hdeclared⟩ := he hl₂ hderived
  have hkind : ∀ k ∈ s.kinds, k.DefinedIn s.registry.defs :=
    fun k hk => (hdefined k hk).mono hextends.defs.subset
  have hid := hl.id_definedIn
  have htree : ∀ d ∈ [parentRelation, srcRelation], d.DefinedIn s.registry.defs := by
    simp [parentRelation, srcRelation, hid]
  have hinput : ∀ d ∈ s.kinds.flatMap KindSchema.inputs, d.DefinedIn s.registry.defs := by
    intro d hd
    obtain ⟨k, hk, hd⟩ := List.mem_flatMap.mp hd
    exact (hkind k hk).inputs hl d hd
  have hmarker : ∀ d ∈ (s.kinds.filter KindSchema.isAbstract).map KindSchema.membership,
      d.DefinedIn s.registry.defs := by
    intro d hd
    obtain ⟨k, hk, rfl⟩ := List.mem_map.mp hd
    exact (hkind k (List.mem_filter.mp hk).1).membership
  refine ⟨hl, ?_⟩
  rw [relations, hinputs, hmarkers]
  simp only [List.forall_mem_append]
  exact ⟨⟨⟨htree, hinput⟩, hdeclared⟩, List.forall_mem_cons.mpr ⟨by simp [hid], hmarker⟩⟩

theorem nodup_fields (h : derive g skip e = .ok s) {k : KindSchema} (hk : k ∈ s.kinds)
    (hc : k.isAbstract = false) : (k.fields.map (·.field)).Nodup := by
  have hrelations : k.fields.map (·.relation) =
      (k.fields.map (·.field)).map fun field => k.name ++ "_" ++ field := by
    rw [List.map_map]
    exact List.map_congr_left ((derive_source h).2 k hk)
  have hn := (nodup_relations h hk hc).1
  rw [hrelations] at hn
  exact hn.of_map _

/-- A field of a concrete kind that is not skipped has one projection. -/
theorem exists_projection (h : derive g skip e = .ok s) {kind : NodeKind} (hk : kind ∈ g.kinds)
    (hc : kind.isAbstract = false) {field : Field} (hf : field ∈ kind.fields)
    (hskip : skip.contains kind.name field.name = false) :
    ∃ k ∈ s.kinds, k.name = kind.name ∧ ∃ p,
      k.fields.filter (·.field == field.name) = [p] ∧ p.source = field := by
  have hmem : kind.without skip ∈ s.kinds.map KindSchema.source := by
    rw [(derive_source h).1]
    exact List.mem_map_of_mem hk
  obtain ⟨k, hks, hsource⟩ := List.mem_map.mp hmem
  have hconcrete : k.isAbstract = false := (congrArg NodeKind.isAbstract hsource).trans hc
  have hfields : k.fields.map FieldProjection.source = (kind.without skip).fields :=
    congrArg NodeKind.fields hsource
  have hleft : field ∈ (kind.without skip).fields := by
    unfold NodeKind.without
    simp [hc, hf, hskip]
  rw [← hfields] at hleft
  obtain ⟨p, hp, rfl⟩ := List.mem_map.mp hleft
  have hone := filter_name_eq_singleton (nodup_fields h hks hconcrete) hp
  exact ⟨k, hks, congrArg NodeKind.name hsource, p, hone, rfl⟩

/-- The head and the body of a rule are relations of one column. -/
theorem rule_declared (h : derive g skip e = .ok s) {rule : Rule} (hrule : rule ∈ s.rules) :
    ∀ name ∈ [rule.head, rule.body], ∃ d ∈ s.relations, d.name = name ∧ d.arity = 1 := by
  obtain ⟨k, hk, hbody, hhead⟩ := (mem_rules h).mp hrule
  have hkind : ∀ k ∈ s.kinds, ∃ d ∈ s.relations, d.name = k.name ∧ d.arity = 1 :=
    fun k hk => ⟨k.membership, membership_mem_relations h hk, rfl, rfl⟩
  have hroot : ∃ d ∈ s.relations, d.name = g.root ∧ d.arity = 1 :=
    ⟨_, root_mem_relations h, rfl, rfl⟩
  rw [List.forall_mem_cons, List.forall_mem_singleton, hbody]
  refine ⟨?_, hkind k hk⟩
  rcases hhead with ⟨hhead, hbase⟩ | ⟨hhead, -⟩
  · rcases base_cases h hk with hbase' | ⟨above, habove, hname⟩
    · exact absurd hbase' hbase
    · rw [hhead, ← hname]
      exact hkind above habove
  · rw [hhead]
    exact hroot

/-- Whatever a schema speaks of is part of it. -/
structure Contained (s : Schema) (g : Grammar) (skip : SkipSet) : Prop where
  distinct : (s.relations.map (·.name)).Nodup
  columns : ∀ d ∈ s.relations, ∀ column ∈ d.columns, ∃ c, s.registry.classify column.2 = .ok c
  bases : ∀ before name base after, s.registry.defs = before ++ .subtype name base :: after →
    base.DefinedIn before ∧ ∃ c, s.registry.classify base = .ok c
  fields : ∀ name fields, .record name fields ∈ s.registry.defs →
    ∀ field ∈ fields, ∃ c, s.registry.classify field.2 = .ok c
  rules : ∀ rule ∈ s.rules, ∀ name ∈ [rule.head, rule.body],
    ∃ d ∈ s.relations, d.name = name ∧ d.arity = 1
  projections : ∀ kind ∈ g.kinds, kind.isAbstract = false → ∀ field ∈ kind.fields,
    skip.contains kind.name field.name = false → ∃ k p, s.kind? kind.name = some k ∧
      k.fields.filter (·.field == field.name) = [p] ∧ p.source = field ∧
      ∃ d ∈ s.inputs, d.name = p.relation ∧ d.columns.head? = some ("id", k.idType)

/-- A derived schema uses no relation and no type but its own. -/
theorem derive_contained (he : e = .none ∨ ∃ version?, e = Solidity.enrichment version?)
    (h : derive g skip e = .ok s) : s.Contained g skip := by
  have hlayers : e.Layers := by
    rcases he with rfl | ⟨version?, rfl⟩
    · exact Enrichment.none_layers
    · exact Solidity.enrichment_layers version?
  obtain ⟨hl, hcolumns⟩ := derive_layered hlayers h
  refine ⟨nodup_relationNames h, ?_, ?_, ?_, fun rule hrule => rule_declared h hrule, ?_⟩
  · intro d hd column hcolumn
    exact hl.classify_definedIn (hcolumns d hd column hcolumn)
  · intro before name base after hdefs
    have hbase : base.DefinedIn before := hl.restsOn hdefs
    refine ⟨hbase, hl.classify_definedIn (hbase.mono ?_)⟩
    rw [hdefs]
    exact List.subset_append_left _ _
  · intro name fields hrecord field hfield
    obtain ⟨before, after, hdefs⟩ := List.append_of_mem hrecord
    have hsplit : s.registry.defs = before ++ [.record name fields] ++ after :=
      hdefs.trans (List.append_cons _ _ _)
    refine hl.classify_definedIn ((hl.restsOn hdefs field hfield).mono ?_)
    rw [hsplit]
    exact List.subset_append_left _ _
  · intro kind hk hc field hf hskip
    obtain ⟨k, hks, hname, p, hone, hsource⟩ := exists_projection h hk hc hf hskip
    have hp : p ∈ k.fields := by
      refine List.mem_of_mem_filter (p := fun p => p.field == field.name) ?_
      rw [hone]
      exact List.mem_singleton_self p
    exact ⟨k, p, (kind?_eq_some h).mpr ⟨hks, hname⟩, hone, hsource, _,
      toRelation_mem_inputs h hks hp, rfl, rfl⟩

/-- Kinds before those that they rest on, an enumeration, a list of nodes and a skipped field. -/
def functions : Grammar :=
  ⟨"Node", ["Mutability"],
    [.concrete "FunctionCall" "Expression" [⟨"arguments", .array, .node "Expression"⟩],
      .abstract "Expression" "Node",
      .concrete "FunctionDefinition" "Node"
        [⟨"parameters", .recordList, .node "VariableDeclaration"⟩,
        ⟨"mutability", .optional, .enumeration "Mutability"⟩, ⟨"documentation", .scalar, .text⟩],
      .concrete "VariableDeclaration" "Node" [⟨"value", .optional, .node "Expression"⟩]]⟩

def functionsSchema : Schema :=
  (derive functions .standard (Solidity.enrichment none)).toOption.getD ⟨"", .empty, [], [], [], []⟩

theorem derive_contained_functions :
    derive functions .standard (Solidity.enrichment none) = .ok functionsSchema ∧
      functionsSchema.Contained functions .standard := by
  have h : derive functions .standard (Solidity.enrichment none) = .ok functionsSchema := by
    decide +kernel
  exact ⟨h, derive_contained (Or.inr ⟨none, rfl⟩) h⟩

end Schema

end TreeFacts
