import TreeFacts.Proofs.Schema.Derive
import TreeFacts.Proofs.Schema.Growth
import TreeFacts.Proofs.Schema.Inputs

namespace TreeFacts

namespace Registry

variable {r r' : Registry} {h : Hierarchy} {taken : List String}

/-- An identifier type whose name is not taken for something else refines that of the base. -/
def Interns (h : Hierarchy) (taken : List String) (r : Registry) : Prop :=
  ∀ {kind base}, h.bases.lookup kind = some base → kind ++ "Id" ∉ taken →
    ∀ {d}, r.get? (kind ++ "Id") = some d → d = .subtype (kind ++ "Id") (h.identifier base)

theorem Interns.push_subtype (hi : r.Interns h taken) {kind base : String}
    (hbase : h.bases.lookup kind = some base) :
    (r.push (.subtype (kind ++ "Id") (h.identifier base))).Interns h taken := by
  intro other above habove hfree d hd
  by_cases hname : kind ++ "Id" = other ++ "Id"
  · have hsame : kind = other := (String.append_left_inj "Id").mp hname
    subst hsame
    rw [get?_push] at hd
    cases hget : r.get? (kind ++ "Id") with
    | none =>
      rw [hbase] at habove
      cases habove
      rw [hget, Option.none_or, TypeDef.name, if_pos rfl] at hd
      exact (Option.some.inj hd).symm
    | some existing =>
      rw [hget, Option.some_or] at hd
      cases hd
      exact hi habove hfree hget
  · have hother : (r.push (.subtype (kind ++ "Id") (h.identifier base))).get? (other ++ "Id") =
        r.get? (other ++ "Id") := get?_push_of_ne hname
    rw [hother] at hd
    exact hi habove hfree hd

theorem internChain_interns (hi : r.Interns h taken) {kind : String} {chain : List String}
    (hc : h.Chain kind chain) :
    (r.internChain chain).1 = h.identifier kind ∧ (r.internChain chain).2.Interns h taken ∧
      (kind ≠ h.root → ((r.internChain chain).2.get? (kind ++ "Id")).isSome) := by
  induction hc with
  | root => exact ⟨(if_pos rfl).symm, hi, fun hne => absurd rfl hne⟩
  | @base kind base above hroot hbase hc ih =>
    obtain ⟨rest, rfl⟩ := hc.exists_cons
    obtain ⟨htype, hi', -⟩ := ih
    have hidentifier : h.identifier kind = .named (kind ++ "Id") := if_neg hroot
    unfold internChain
    simp only [htype, hidentifier, true_and]
    split
    next hsome => exact ⟨hi', fun _ => hsome⟩
    next hnone =>
      refine ⟨hi'.push_subtype hbase, fun _ => ?_⟩
      have hget := @get?_push_self _ (.subtype (kind ++ "Id") (h.identifier base))
        (Option.not_isSome_iff_eq_none.mp hnone)
      rw [TypeDef.name] at hget
      rw [hget]
      rfl

theorem identifierType_interns (hi : r.Interns h taken) (hh : r.hierarchy = some h) {kind : String}
    {type : ColumnType} (hid : r.identifierType kind = .ok (type, r')) :
    type = h.identifier kind ∧ r'.Interns h taken ∧
      (kind ≠ h.root → (r'.get? (kind ++ "Id")).isSome) := by
  obtain ⟨h', chain, hh', hc, heq⟩ := identifierType_eq_ok hid
  cases hh.symm.trans hh'
  obtain ⟨htype, hi', hsome⟩ := internChain_interns hi hc
  rw [heq] at htype hi' hsome
  exact ⟨htype, hi', hsome⟩

theorem Grows.interns (hgrows : r.Grows r') (hh : r.hierarchy = some h) (hi : r.Interns h taken) :
    r'.hierarchy = some h ∧ r'.Interns h taken := by
  refine hgrows.preserves (P := fun r => r.hierarchy = some h ∧ r.Interns h taken) ?_ ⟨hh, hi⟩
  rintro r r' hask ⟨hh, hi⟩
  refine ⟨hask.extends.hierarchy.trans hh, ?_⟩
  cases hask with
  | identifier hid => exact (identifierType_interns hi hh hid).2.1
  | list hlist =>
    intro kind base hbase hfree d hd
    rw [get?_listType_of_ne hlist (listName_ne_idName _ kind)] at hd
    exact hi hbase hfree hd

/-- A type with the types that it refines, one after the other; the universal identifier type is
last. -/
inductive RefinesId (r : Registry) : ColumnType → List ColumnType → Prop
  | id : r.RefinesId .id [.id]
  | subtype {name : String} {base : ColumnType} {above : List ColumnType} : name ≠ "id" →
    r.get? name = some (.subtype name base) → r.RefinesId base above →
    r.RefinesId (.named name) (.named name :: above)

/-- Where every identifier type refines that of the base, they follow the chain of the kinds. -/
theorem refinesId_of_chain (hdefs : ∀ {kind base}, h.bases.lookup kind = some base →
      r.get? (kind ++ "Id") = some (.subtype (kind ++ "Id") (h.identifier base)))
    {kind : String} {chain : List String} (hc : h.Chain kind chain) :
    r.RefinesId (h.identifier kind) (chain.map h.identifier) := by
  induction hc with
  | root =>
    rw [List.map_singleton, Hierarchy.identifier, if_pos rfl]
    exact .id
  | base hroot hbase _ ih =>
    rw [List.map_cons, Hierarchy.identifier, if_neg hroot]
    exact .subtype (idName_ne_builtin _).2 (hdefs hbase) ih

theorem hierarchy_of_registerKinds {g : Grammar} (h : r.registerKinds g = .ok r') :
    r'.hierarchy = some g.hierarchy := by
  rw [(registerKinds_eq_ok h).1]
  rfl

end Registry

namespace Schema

/-- The identifier type of a kind is a subtype of that of its base, and so on up to the root. -/
structure Identifies (s : Schema) (h : Hierarchy) (kind : NodeKind) : Prop where
  idType : ∃ k, s.kind? kind.name = some k ∧ k.idType = .named (kind.name ++ "Id")
  defined : s.registry.get? (kind.name ++ "Id") =
    some (.subtype (kind.name ++ "Id") (h.identifier kind.base))
  nodeId : s.registry.classify (.named (kind.name ++ "Id")) = .ok .nodeId
  refines : ∃ chain, h.Chain kind.name chain ∧
    s.registry.RefinesId (.named (kind.name ++ "Id")) (chain.map h.identifier)

variable {g : Grammar} {skip : SkipSet} {e : Enrichment} {s : Schema}

theorem lookup_hierarchy (h : derive g skip e = .ok s) {kind : NodeKind} (hk : kind ∈ g.kinds) :
    g.hierarchy.bases.lookup kind.name = some kind.base := by
  obtain ⟨_, _, _, _, -, hkinds, -⟩ := derive_eq_ok h
  have hn := (Registry.registerKinds_eq_ok hkinds).2.1
  refine Entries.lookup_of_mem ?_ (List.mem_map.mpr ⟨kind, hk, rfl⟩)
  rwa [Grammar.hierarchy, List.map_map]

theorem exists_kind? (h : derive g skip e = .ok s) {kind : NodeKind} (hk : kind ∈ g.kinds) :
    ∃ k ∈ s.kinds, s.kind? kind.name = some k ∧ k.base = kind.base := by
  have hmem : kind.without skip ∈ s.kinds.map KindSchema.source := by
    rw [(derive_source h).1]
    exact List.mem_map_of_mem hk
  obtain ⟨k, hk', hsource⟩ := List.mem_map.mp hmem
  exact ⟨k, hk', (kind?_eq_some h).mpr ⟨hk', congrArg NodeKind.name hsource⟩,
    congrArg NodeKind.base hsource⟩

/-- From the registry in which only enumerations are defined, the schema's is reached by asking for
types, the identifier type of each kind among them. -/
theorem derive_grows (h : derive g skip Enrichment.none = .ok s) :
    ∃ r : Registry, r.Grows s.registry ∧ r.hierarchy = some g.hierarchy ∧
      (∀ kind, r.get? (kind ++ "Id") =
        if kind ++ "Id" ∈ g.enums then some (.subtype (kind ++ "Id") .symbol) else none) ∧
      ((∀ kind ∈ g.kinds, kind.name ++ "Id" ∉ g.enums) → r.Identifies) ∧
      ∀ k ∈ s.kinds, ∃ r₁ r₂ : Registry, r.Grows r₁ ∧
        r₁.identifierType k.name = .ok (k.idType, r₂) ∧ r₂.Grows s.registry := by
  obtain ⟨r₀, r₁, r₂, derived, hr₀, hr₁, hkinds, hnone, -⟩ := derive_eq_ok h
  cases hnone
  obtain ⟨hgrows, hasked⟩ := KindSchema.deriveAll_grows hkinds
  have hh := Registry.hierarchy_of_registerKinds hr₁
  exact ⟨r₁, hgrows, hh, Registry.get?_of_registerKinds hr₀ hr₁,
    fun hfree => Registry.identifies_of_registerKinds hfree hr₀ hr₁, hasked⟩

theorem derive_interns (h : derive g skip Enrichment.none = .ok s) :
    s.registry.Interns g.hierarchy g.enums ∧ ∀ k ∈ s.kinds, ∃ r : Registry,
      r.Extends s.registry ∧ k.idType = g.hierarchy.identifier k.name ∧
      (k.name ≠ g.root → (r.get? (k.name ++ "Id")).isSome) := by
  obtain ⟨r, hgrows, hh, hstart, -, hasked⟩ := derive_grows h
  have hi : r.Interns g.hierarchy g.enums := by
    intro kind base _ hfree d hd
    rw [hstart, if_neg hfree] at hd
    cases hd
  refine ⟨(hgrows.interns hh hi).2, ?_⟩
  intro k hk
  obtain ⟨r₁, r₂, hbefore, hid, hafter⟩ := hasked k hk
  obtain ⟨hh₁, hi₁⟩ := hbefore.interns hh hi
  obtain ⟨htype, -, hsome⟩ := Registry.identifierType_interns hi₁ hh₁ hid
  exact ⟨r₂, hafter.extends, htype, hsome⟩

theorem exists_chain (h : derive g skip e = .ok s) {k : KindSchema} (hk : k ∈ s.kinds) :
    ∃ chain, g.hierarchy.Chain k.name chain := by
  obtain ⟨r₀, r₁, r₂, derived, -, hr₁, hkinds, -⟩ := derive_eq_ok h
  obtain ⟨r₃, r₄, hbefore, hid, -⟩ := (KindSchema.deriveAll_grows hkinds).2 k hk
  obtain ⟨hierarchy, chain, hh, hchain, -⟩ := Registry.identifierType_eq_ok hid
  have hh₁ := hbefore.extends.hierarchy.trans (Registry.hierarchy_of_registerKinds hr₁)
  cases hh.symm.trans hh₁
  exact ⟨chain, hchain⟩

theorem name_ne_root (h : derive g skip e = .ok s) {kind : NodeKind} (hk : kind ∈ g.kinds) :
    kind.name ≠ g.root := by
  obtain ⟨_, _, _, _, -, hkinds, -⟩ := derive_eq_ok h
  exact (Registry.registerKinds_eq_ok hkinds).2.2 kind hk

/-- What the name of a kind's identifier type stands for in the end. -/
theorem get?_identifier (h : derive g skip Enrichment.none = .ok s) {kind : NodeKind}
    (hk : kind ∈ g.kinds) : s.registry.get? (kind.name ++ "Id") =
      some (.subtype (kind.name ++ "Id")
        (if kind.name ++ "Id" ∈ g.enums then .symbol else g.hierarchy.identifier kind.base)) := by
  split
  next htaken =>
    obtain ⟨r, hgrows, -, hstart, -⟩ := derive_grows h
    have hget := hstart kind.name
    rw [if_pos htaken] at hget
    exact Registry.get?_mono hgrows.extends.defs hget
  next hfree =>
    obtain ⟨hi, hkinds⟩ := derive_interns h
    obtain ⟨k, hks, hkind, -⟩ := exists_kind? h hk
    obtain ⟨r, he, -, hsome⟩ := hkinds k hks
    rw [((kind?_eq_some h).mp hkind).2] at hsome
    obtain ⟨d, hd⟩ := Option.isSome_iff_exists.mp (hsome (name_ne_root h hk))
    have hfinal := Registry.get?_mono he.defs hd
    rw [hfinal, hi (lookup_hierarchy h hk) hfree hfinal]

theorem mem_kinds_of_lookup {kind base : String}
    (hbase : g.hierarchy.bases.lookup kind = some base) :
    ∃ k ∈ g.kinds, k.name = kind ∧ k.base = base := by
  obtain ⟨k, hk, hpair⟩ := List.mem_map.mp (Entries.mem_of_lookup hbase)
  exact ⟨k, hk, congrArg Prod.fst hpair, congrArg Prod.snd hpair⟩

/-- The base of a kind is the root or one of the kinds. -/
theorem base_cases (h : derive g skip e = .ok s) {k : KindSchema} (hk : k ∈ s.kinds) :
    k.base = g.root ∨ ∃ above ∈ s.kinds, above.name = k.base := by
  obtain ⟨kind, hkind, hname, hbase⟩ := exists_kind h hk
  obtain ⟨chain, hchain⟩ := exists_chain h hk
  have hlookup := lookup_hierarchy h hkind
  rw [hname, hbase] at hlookup
  rcases hchain.exists_base with hroot | ⟨base, above, hlookup', habove⟩
  · exact absurd (hname.trans hroot) (name_ne_root h hkind)
  · cases hlookup.symm.trans hlookup'
    rcases habove.exists_base with hroot | ⟨base, above, hnext, -⟩
    · exact Or.inl hroot
    · obtain ⟨kind', hkind', hname', -⟩ := mem_kinds_of_lookup hnext
      obtain ⟨k', hk', hfound, -⟩ := exists_kind? h hkind'
      exact Or.inr ⟨k', hk', ((kind?_eq_some h).mp hfound).2.trans hname'⟩

theorem identifies_of_free (h : derive g skip Enrichment.none = .ok s)
    (hfree : ∀ kind ∈ g.kinds, kind.name ++ "Id" ∉ g.enums) {kind : NodeKind} (hk : kind ∈ g.kinds) :
    s.Identifies g.hierarchy kind := by
  have hdefs {kind base : String} (hbase : g.hierarchy.bases.lookup kind = some base) :
      s.registry.get? (kind ++ "Id") =
        some (.subtype (kind ++ "Id") (g.hierarchy.identifier base)) := by
    obtain ⟨k, hk, rfl, rfl⟩ := mem_kinds_of_lookup hbase
    rw [get?_identifier h hk, if_neg (hfree k hk)]
  obtain ⟨k, hks, hkind, -⟩ := exists_kind? h hk
  obtain ⟨-, -, htype, -⟩ := (derive_interns h).2 k hks
  obtain ⟨chain, hchain⟩ := exists_chain h hks
  rw [((kind?_eq_some h).mp hkind).2] at htype hchain
  have hidentifier : g.hierarchy.identifier kind.name = .named (kind.name ++ "Id") :=
    if_neg (name_ne_root h hk)
  have hdefined := hdefs (lookup_hierarchy h hk)
  refine ⟨⟨k, hkind, htype.trans hidentifier⟩, hdefined, ?_, chain, hchain, ?_⟩
  · obtain ⟨r, hgrows, hh, -, hidentifies, -⟩ := derive_grows h
    have hkey : kind.name ∈ g.hierarchy.bases.map (·.1) :=
      List.mem_map_of_mem (Entries.mem_of_lookup (lookup_hierarchy h hk))
    refine hgrows.identifies (hidentifies hfree) _ (hgrows.extends.hierarchy.trans hh) _ hkey ?_
    rw [hdefined]
    rfl
  · rw [← hidentifier]
    exact Registry.refinesId_of_chain hdefs hchain

/-- The kinds of a derived schema have the identifier types of the hierarchy just when no
enumeration has taken the name of such a type. -/
theorem derive_identifies_iff (h : derive g skip Enrichment.none = .ok s) :
    (∀ kind ∈ g.kinds, s.Identifies g.hierarchy kind) ↔
      ∀ kind ∈ g.kinds, kind.name ++ "Id" ∉ g.enums := by
  refine ⟨fun hall kind hk htaken => ?_, fun hfree kind hk => identifies_of_free h hfree hk⟩
  have hdefined := (hall kind hk).defined
  rw [get?_identifier h hk, if_pos htaken, Hierarchy.identifier] at hdefined
  split at hdefined <;> cases hdefined

/-- Leaves under an abstract kind, in a grammar with the given enumerations. -/
def leaves (enums : List String) : Grammar :=
  ⟨"Node", enums, [.concrete "Leaf" "Plant" [], .abstract "Plant" "Node"]⟩

def leavesSchema (enums : List String) : Schema :=
  (derive (leaves enums) .empty .none).toOption.getD ⟨"", .empty, [], [], [], []⟩

theorem derive_identifies_leaves :
    derive (leaves ["Color"]) .empty .none = .ok (leavesSchema ["Color"]) ∧
      ∀ kind ∈ (leaves ["Color"]).kinds,
        (leavesSchema ["Color"]).Identifies (leaves ["Color"]).hierarchy kind := by
  have h : derive (leaves ["Color"]) .empty .none = .ok (leavesSchema ["Color"]) := by
    decide +kernel
  exact ⟨h, (derive_identifies_iff h).mpr (by decide)⟩

/-- An enumeration takes the place of an identifier type, and leaves are identified by symbols. -/
theorem derive_takenIdentifier :
    derive (leaves ["LeafId"]) .empty .none = .ok (leavesSchema ["LeafId"]) ∧
      (leavesSchema ["LeafId"]).registry.get? "LeafId" = some (.subtype "LeafId" .symbol) ∧
      ((leavesSchema ["LeafId"]).kind? "Leaf").map (·.idType) = some (.named "LeafId") ∧
      (leavesSchema ["LeafId"]).registry.classify (.named "LeafId") = .ok .symbol := by
  decide +kernel

end Schema

end TreeFacts
