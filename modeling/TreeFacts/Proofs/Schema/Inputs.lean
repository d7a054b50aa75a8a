import Mathlib.Data.List.Nodup
import Mathlib.Data.List.Pairwise
import TreeFacts.Proofs.Schema.Derive

namespace TreeFacts

theorem eq_of_mem_flatMap {α β : Type} {f : α → List β} {as : List α} (hn : (as.flatMap f).Nodup)
    {a b : α} (ha : a ∈ as) (hb : b ∈ as) {x : β} (hxa : x ∈ f a) (hxb : x ∈ f b) : a = b := by
  obtain ⟨-, hdisjoint⟩ := List.nodup_flatMap.mp hn
  by_contra hne
  have hsymm : Std.Symm (Function.onFun List.Disjoint f) :=
    ⟨fun _ _ h _ hx hy => h hy hx⟩
  have hab : List.Disjoint (f a) (f b) := hdisjoint.forall ha hb hne
  exact hab hxa hxb

namespace KindSchema

/-- The names of the relations that are filled for a kind. -/
def names (k : KindSchema) : List String := k.inputs.map (·.name)

theorem names_eq {k : KindSchema} (hc : k.isAbstract = false) :
    k.names = k.name :: k.fields.map (·.relation) := by
  rw [names, inputs, if_neg (by simp [hc]), List.map_cons, List.map_map]
  rfl

end KindSchema

namespace Schema

variable {g : Grammar} {skip : SkipSet} {e : Enrichment} {s : Schema}

theorem fields_eq_nil (h : derive g skip e = .ok s) {k : KindSchema} (hk : k ∈ s.kinds)
    (ha : k.isAbstract = true) : k.fields = [] := by
  have hmem : k.source ∈ s.kinds.map KindSchema.source := List.mem_map_of_mem hk
  rw [(derive_source h).1] at hmem
  obtain ⟨kind, -, heq⟩ := List.mem_map.mp hmem
  have hkind : kind.isAbstract = true := (congrArg NodeKind.isAbstract heq).trans ha
  have hfields : k.fields.map FieldProjection.source = (kind.without skip).fields :=
    (congrArg NodeKind.fields heq).symm
  rw [NodeKind.without, if_pos hkind] at hfields
  exact List.map_eq_nil_iff.mp hfields

theorem isAbstract_eq_false (h : derive g skip e = .ok s) {k : KindSchema} (hk : k ∈ s.kinds)
    {p : FieldProjection} (hp : p ∈ k.fields) : k.isAbstract = false := by
  cases ha : k.isAbstract with
  | false => rfl
  | true => simp [fields_eq_nil h hk ha] at hp

theorem tree_mem_inputs (h : derive g skip e = .ok s) :
    parentRelation ∈ s.inputs ∧ srcRelation ∈ s.inputs := by
  obtain ⟨_, _, _, _, -, -, -, -, hinputs, -⟩ := derive_eq_ok h
  rw [hinputs]
  simp

theorem mem_inputs (h : derive g skip e = .ok s) {k : KindSchema} (hk : k ∈ s.kinds)
    {d : Relation} (hd : d ∈ k.inputs) : d ∈ s.inputs := by
  obtain ⟨_, _, _, _, -, -, -, -, hinputs, -⟩ := derive_eq_ok h
  rw [hinputs]
  have hmem : d ∈ s.kinds.flatMap KindSchema.inputs := List.mem_flatMap.mpr ⟨k, hk, hd⟩
  simp [hmem]

theorem membership_mem_inputs (h : derive g skip e = .ok s) {k : KindSchema} (hk : k ∈ s.kinds)
    (hc : k.isAbstract = false) : k.membership ∈ s.inputs :=
  mem_inputs h hk (by simp [KindSchema.inputs, hc])

theorem membership_mem_relations (h : derive g skip e = .ok s) {k : KindSchema} (hk : k ∈ s.kinds) :
    k.membership ∈ s.relations := by
  cases hc : k.isAbstract with
  | false => exact List.mem_append_left _ (membership_mem_inputs h hk hc)
  | true =>
    obtain ⟨_, _, _, _, -, -, -, -, -, -, hmarkers, -⟩ := derive_eq_ok h
    have hmem : k ∈ s.kinds.filter KindSchema.isAbstract := List.mem_filter.mpr ⟨hk, hc⟩
    rw [relations, hmarkers]
    exact List.mem_append_right _ (List.mem_cons_of_mem _ (List.mem_map_of_mem hmem))

theorem root_mem_relations (h : derive g skip e = .ok s) :
    ⟨g.root, [("id", .id)]⟩ ∈ s.relations := by
  obtain ⟨_, _, _, _, -, -, -, -, -, -, hmarkers, -⟩ := derive_eq_ok h
  rw [relations, hmarkers]
  exact List.mem_append_right _ List.mem_cons_self

theorem toRelation_mem_inputs (h : derive g skip e = .ok s) {k : KindSchema} (hk : k ∈ s.kinds)
    {p : FieldProjection} (hp : p ∈ k.fields) : p.toRelation k.idType ∈ s.inputs := by
  have hc := isAbstract_eq_false h hk hp
  refine mem_inputs h hk ?_
  rw [KindSchema.inputs, if_neg (by simp [hc])]
  exact List.mem_cons_of_mem _ (List.mem_map_of_mem hp)

theorem exists_kind (h : derive g skip e = .ok s) {k : KindSchema} (hk : k ∈ s.kinds) :
    ∃ kind ∈ g.kinds, kind.name = k.name ∧ kind.base = k.base := by
  have hmem : k.source ∈ s.kinds.map KindSchema.source := List.mem_map_of_mem hk
  rw [(derive_source h).1] at hmem
  obtain ⟨kind, hkind, heq⟩ := List.mem_map.mp hmem
  exact ⟨kind, hkind, congrArg NodeKind.name heq, congrArg NodeKind.base heq⟩

/-- The rules of a schema lead from each kind to its base, and from each concrete one to the
root. -/
theorem mem_rules (h : derive g skip e = .ok s) {rule : Rule} :
    rule ∈ s.rules ↔ ∃ k ∈ s.kinds, rule.body = k.name ∧
      (rule.head = k.base ∧ k.base ≠ g.root ∨ rule.head = g.root ∧ k.isAbstract = false) := by
  obtain ⟨_, _, _, _, -, -, -, -, -, -, -, hrules⟩ := derive_eq_ok h
  obtain ⟨head, body⟩ := rule
  rw [hrules, List.mem_flatMap]
  refine exists_congr fun k => and_congr_right fun _ => ?_
  by_cases hbase : k.base = g.root <;> cases hconcrete : k.isAbstract <;>
    simp [KindSchema.rules, hbase, hconcrete] <;> tauto

theorem find?_inputs (h : derive g skip e = .ok s) {name : String} {d : Relation} :
    s.inputs.find? (·.name == name) = some d ↔ d ∈ s.inputs ∧ d.name = name := by
  obtain ⟨_, _, _, _, -, -, -, -, -, hn, -⟩ := derive_eq_ok h
  exact find?_name_eq_some hn

/-- No name is that of two relations. -/
theorem nodup_names (h : derive g skip e = .ok s) :
    (s.kinds.flatMap KindSchema.names).Nodup ∧
      ∀ k ∈ s.kinds, ∀ name ∈ k.names, name ≠ parentRelation.name ∧ name ≠ srcRelation.name := by
  obtain ⟨_, _, _, _, -, -, -, -, hinputs, hn, -⟩ := derive_eq_ok h
  have hkinds : (s.kinds.flatMap KindSchema.inputs).map (·.name) =
      s.kinds.flatMap KindSchema.names := List.map_flatMap
  rw [hinputs, List.map_append, List.map_append, hkinds] at hn
  have hleft := (List.nodup_append.mp hn).1
  obtain ⟨-, hnames, hdisjoint⟩ := List.nodup_append.mp hleft
  refine ⟨hnames, ?_⟩
  intro k hk name hname
  have hmem : name ∈ s.kinds.flatMap KindSchema.names := List.mem_flatMap.mpr ⟨k, hk, hname⟩
  constructor
  · exact fun heq => hdisjoint _ (by simp) name hmem heq.symm
  · exact fun heq => hdisjoint _ (by simp) name hmem heq.symm

theorem eq_of_mem_names (h : derive g skip e = .ok s) {k k' : KindSchema} (hk : k ∈ s.kinds)
    (hk' : k' ∈ s.kinds) {name : String} (hn : name ∈ k.names) (hn' : name ∈ k'.names) : k = k' :=
  eq_of_mem_flatMap (nodup_names h).1 hk hk' hn hn'

theorem nodup_relations (h : derive g skip e = .ok s) {k : KindSchema} (hk : k ∈ s.kinds)
    (hc : k.isAbstract = false) :
    (k.fields.map (·.relation)).Nodup ∧ k.name ∉ k.fields.map (·.relation) := by
  have hn := (List.nodup_flatMap.mp (nodup_names h).1).1 k hk
  rw [KindSchema.names_eq hc, List.nodup_cons] at hn
  exact ⟨hn.2, hn.1⟩

end Schema

end TreeFacts
