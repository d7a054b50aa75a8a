import TreeFacts.Proofs.Fact.Typing
import TreeFacts.Proofs.Schema.Typing

namespace TreeFacts

namespace FieldProjection

/-- The field that a projection is of. -/
def source (p : FieldProjection) : Field := ⟨p.field, p.shape, p.semantic⟩

theorem deriveAll_source {r r' : Registry} {kind : String} {fields : List Field}
    {ps : List FieldProjection} (h : deriveAll kind r fields = .ok (ps, r')) :
    ps.map source = fields ∧ ∀ p ∈ ps, p.relation = kind ++ "_" ++ p.field := by
  induction fields generalizing r ps with
  | nil =>
    cases h
    simp
  | cons field fields ih =>
    unfold deriveAll at h
    obtain ⟨⟨p, r₁⟩, hp, h⟩ := bind_eq_ok.mp h
    obtain ⟨⟨rest, r₂⟩, hrest, h⟩ := bind_eq_ok.mp h
    cases h
    obtain ⟨_, _, _, -, rfl, -⟩ := derive_eq_ok hp
    obtain ⟨hsource, hrelation⟩ := ih hrest
    refine ⟨by rw [List.map_cons, hsource]; rfl, ?_⟩
    intro q hq
    rcases List.mem_cons.mp hq with rfl | hq
    · rfl
    · exact hrelation q hq

end FieldProjection

/-- A kind without the fields that are skipped. No relation is made for a field of an abstract
kind. -/
def NodeKind.without (skip : SkipSet) (kind : NodeKind) : NodeKind :=
  { kind with fields := if kind.isAbstract then [] else
    kind.fields.filter fun field => !skip.contains kind.name field.name }

namespace KindSchema

/-- What of a kind has relations. -/
def source (k : KindSchema) : NodeKind :=
  ⟨k.name, k.base, k.isAbstract, k.fields.map FieldProjection.source⟩

/-- The relation of a field is named for the kind and the field. -/
def NamesFields (k : KindSchema) : Prop := ∀ p ∈ k.fields, p.relation = k.name ++ "_" ++ p.field

theorem deriveAll_source {skip : SkipSet} {r r' : Registry} {kinds : List NodeKind}
    {ks : List KindSchema} (h : deriveAll skip r kinds = .ok (ks, r')) :
    ks.map source = kinds.map (NodeKind.without skip) ∧ ∀ k ∈ ks, k.NamesFields := by
  induction kinds generalizing r ks with
  | nil =>
    cases h
    simp
  | cons kind kinds ih =>
    unfold deriveAll at h
    obtain ⟨⟨k, r₁⟩, hk, h⟩ := bind_eq_ok.mp h
    obtain ⟨⟨rest, r₂⟩, hrest, h⟩ := bind_eq_ok.mp h
    cases h
    obtain ⟨_, _, ps, -, hps, rfl⟩ := derive_eq_ok hk
    obtain ⟨hfields, hnames⟩ := FieldProjection.deriveAll_source hps
    obtain ⟨hsource, hall⟩ := ih hrest
    constructor
    · rw [List.map_cons, hsource, List.map_cons, source, NodeKind.without, hfields]
    · intro q hq
      rcases List.mem_cons.mp hq with rfl | hq
      · exact hnames
      · exact hall q hq

end KindSchema

namespace Registry

variable {r r' : Registry}

theorem classify_of_get?_symbol {name : String} (h : r.get? name = some (.subtype name .symbol))
    (hbool : name ≠ "bool") (hid : name ≠ "id") : r.classify (.named name) = .ok .symbol := by
  obtain ⟨n, hn⟩ : ∃ n, r.defs.length = n + 1 := by
    have hpos := List.length_pos_of_mem (List.mem_of_find?_eq_some h)
    exact ⟨r.defs.length - 1, by omega⟩
  rw [classify_eq_ok, hn, classifyIn, if_neg hbool, if_neg hid, h]
  rfl

/-- An enumeration can take the place of none of the types that are always there. -/
theorem classify_of_get?_enum (he : empty.Extends r) {name : String}
    (hget : r.get? name = some (.subtype name .symbol)) :
    r.classify (.named name) = .ok .symbol := by
  -- The builtin types are defined first, as something else.
  refine classify_of_get?_symbol hget ?_ ?_
  · rintro rfl
    have hbool : empty.get? "bool" = some (.subtype "bool" .number) := rfl
    rw [get?_mono he.defs hbool] at hget
    cases hget
  · rintro rfl
    have hid : empty.get? "id" = some (.subtype "id" .number) := rfl
    rw [get?_mono he.defs hid] at hget
    cases hget

theorem foldlM_registerEnum {enums : List String} (h : enums.foldlM registerEnum r = .ok r') :
    r.Extends r' ∧ (∀ name ∈ enums, r'.get? name = some (.subtype name .symbol)) ∧
      ∀ name, name ∉ enums → r'.get? name = r.get? name := by
  induction enums generalizing r with
  | nil =>
    cases h
    exact ⟨Extends.refl _, by simp, fun _ _ => rfl⟩
  | cons enum enums ih =>
    rw [List.foldlM_cons] at h
    obtain ⟨r₁, hfirst, h⟩ := bind_eq_ok.mp h
    obtain ⟨he', hsame, hother⟩ := ih h
    refine ⟨(define_extends hfirst).trans he', ?_, ?_⟩
    · intro name hname
      rcases List.mem_cons.mp hname with rfl | hname
      · exact get?_mono he'.defs (get?_define_self hfirst)
      · exact hsame name hname
    · intro name hname
      rw [List.mem_cons, not_or] at hname
      rw [hother name hname.2]
      exact get?_define_of_ne hfirst (Ne.symm hname.1)

theorem registerKinds_eq_ok {g : Grammar} (h : r.registerKinds g = .ok r') :
    r' = { r with hierarchy := some ⟨g.root, g.kinds.map fun kind => (kind.name, kind.base)⟩ } ∧
      (g.kinds.map (·.name)).Nodup ∧ ∀ kind ∈ g.kinds, kind.name ≠ g.root := by
  unfold registerKinds at h
  split at h
  next hierarchy hg =>
    cases h
    obtain ⟨rfl, hkinds⟩ := Hierarchy.ofGrammar_eq_ok hg
    exact ⟨rfl, hkinds⟩
  next => cases h

/-- Before any kind is derived, the name of an identifier type is that of an enumeration or free. -/
theorem get?_of_registerKinds {g : Grammar} {r₀ r₁ : Registry}
    (hr₀ : g.enums.foldlM registerEnum empty = .ok r₀) (hr₁ : r₀.registerKinds g = .ok r₁)
    (kind : String) : r₁.get? (kind ++ "Id") =
      if kind ++ "Id" ∈ g.enums then some (.subtype (kind ++ "Id") .symbol) else none := by
  obtain ⟨-, hsame, hother⟩ := foldlM_registerEnum hr₀
  have hget : r₁.get? (kind ++ "Id") = r₀.get? (kind ++ "Id") := by
    rw [(registerKinds_eq_ok hr₁).1]
    rfl
  rw [hget]
  split
  next hmem => exact hsame _ hmem
  next hmem =>
    obtain ⟨hbool, hid⟩ := idName_ne_builtin kind
    rw [hother _ hmem]
    simp [get?, empty, TypeDef.name, Ne.symm hbool, Ne.symm hid]

theorem identifies_of_registerKinds {g : Grammar}
    (hg : ∀ kind ∈ g.kinds, kind.name ++ "Id" ∉ g.enums) {r₀ r₁ : Registry}
    (hr₀ : g.enums.foldlM registerEnum empty = .ok r₀) (hr₁ : r₀.registerKinds g = .ok r₁) :
    r₁.Identifies := by
  intro h hh kind hkind hsome
  have hnames : h.bases.map (·.1) = g.kinds.map (·.name) := by
    rw [(registerKinds_eq_ok hr₁).1] at hh
    cases hh
    simp
  rw [hnames] at hkind
  obtain ⟨k, hk, rfl⟩ := List.mem_map.mp hkind
  -- No kind has an identifier type yet, since no enumeration has taken its name.
  rw [get?_of_registerKinds hr₀ hr₁, if_neg (hg k hk)] at hsome
  cases hsome

theorem holdsEnums_of_registerKinds {g : Grammar} {r₀ r₁ : Registry}
    (hr₀ : g.enums.foldlM registerEnum empty = .ok r₀) (hr₁ : r₀.registerKinds g = .ok r₁) :
    r₁.HoldsEnums g.enums := by
  obtain ⟨he, hsame, -⟩ := foldlM_registerEnum hr₀
  have heq : r₁.defs = r₀.defs := by rw [(registerKinds_eq_ok hr₁).1]
  have hdefs : r₀.defs <+: r₁.defs := heq ▸ List.prefix_rfl
  intro name hname
  exact classify_mono hdefs (classify_of_get?_enum he (hsame name hname))

end Registry

/-- A fact under the name of a relation, with values of the types of its columns. -/
def Relation.Admits (registry : Registry) (r : Relation) (fact : Fact) : Prop :=
  r.name = fact.1 ∧ HaveTypes registry fact.2 r.columns

namespace Enrichment

/-- What an enrichment adds fits the relations that it declares. -/
structure Sound (e : Enrichment) : Prop where
  declare_extends : ∀ {r r' relations}, e.declare r = .ok (relations, r') → r.Extends r'
  admits : ∀ {r r' relations}, r.Identifies → e.declare r = .ok (relations, r') →
    ∀ fact, (fact ∈ e.once ∨ ∃ n, fact ∈ e.ofNode n) → ∃ d ∈ relations, d.Admits r' fact

theorem none_sound : none.Sound where
  declare_extends h := by
    cases h
    exact Registry.Extends.refl _
  admits _ _ fact hfact := by
    rcases hfact with h | ⟨_, h⟩
    · cases h
    · cases h

end Enrichment

namespace Schema

theorem repeated?_eq_none {seen names : List String} (h : repeated? seen names = none) :
    names.Nodup ∧ ∀ name ∈ names, name ∉ seen := by
  induction names generalizing seen with
  | nil => simp
  | cons name names ih =>
    unfold repeated? at h
    split at h
    next => cases h
    next hseen =>
      obtain ⟨hn, hfresh⟩ := ih h
      refine ⟨List.nodup_cons.mpr ⟨?_, hn⟩, ?_⟩
      · intro hmem
        exact hfresh name hmem List.mem_cons_self
      · intro other hother
        rcases List.mem_cons.mp hother with rfl | hother
        · simpa using hseen
        · exact fun hmem => hfresh other hother (List.mem_cons_of_mem _ hmem)

variable {g : Grammar} {skip : SkipSet} {e : Enrichment} {s : Schema}

theorem derive_eq_ok (h : derive g skip e = .ok s) :
    ∃ r₀ r₁ r₂ derived, g.enums.foldlM Registry.registerEnum Registry.empty = .ok r₀ ∧
      r₀.registerKinds g = .ok r₁ ∧ KindSchema.deriveAll skip r₁ g.kinds = .ok (s.kinds, r₂) ∧
      e.declare r₂ = .ok (derived, s.registry) ∧
      s.inputs = [parentRelation, srcRelation] ++ s.kinds.flatMap KindSchema.inputs ++ derived ∧
      (s.inputs.map (·.name)).Nodup ∧
      s.markers = ⟨g.root, [("id", .id)]⟩ ::
        (s.kinds.filter KindSchema.isAbstract).map KindSchema.membership ∧
      s.rules = s.kinds.flatMap (KindSchema.rules g.root) := by
  unfold derive at h
  obtain ⟨r₀, hr₀, h⟩ := bind_eq_ok.mp h
  obtain ⟨r₁, hr₁, h⟩ := bind_eq_ok.mp h
  obtain ⟨⟨kinds, r₂⟩, hkinds, h⟩ := bind_eq_ok.mp h
  obtain ⟨⟨derived, r₃⟩, hderived, h⟩ := bind_eq_ok.mp h
  simp only at h
  split at h
  next => cases h
  next hrepeated =>
    cases h
    refine ⟨r₀, r₁, r₂, derived, hr₀, hr₁, hkinds, hderived, rfl, ?_, rfl, rfl⟩
    have hn := (repeated?_eq_none hrepeated).1
    rw [List.map_append] at hn
    exact (List.nodup_append.mp hn).1

theorem derive_source (h : derive g skip e = .ok s) :
    s.kinds.map KindSchema.source = g.kinds.map (NodeKind.without skip) ∧
      ∀ k ∈ s.kinds, k.NamesFields := by
  obtain ⟨_, _, _, _, -, -, hkinds, -⟩ := derive_eq_ok h
  exact KindSchema.deriveAll_source hkinds

theorem nodup_kinds (h : derive g skip e = .ok s) : (s.kinds.map (·.name)).Nodup := by
  obtain ⟨_, _, _, _, -, hkinds, -⟩ := derive_eq_ok h
  have hnames := congrArg (List.map NodeKind.name) (derive_source h).1
  rw [List.map_map, List.map_map] at hnames
  have heq : s.kinds.map (·.name) = g.kinds.map (·.name) := hnames
  rw [heq]
  exact (Registry.registerKinds_eq_ok hkinds).2.1

theorem kind?_eq_some (h : derive g skip e = .ok s) {name : String} {k : KindSchema} :
    s.kind? name = some k ↔ k ∈ s.kinds ∧ k.name = name :=
  find?_name_eq_some (nodup_kinds h)

/-- The columns of a schema fit the values that they are for. -/
theorem derive_fits (hg : g.NamesEnums) (he : e.Sound) (h : derive g skip e = .ok s) :
    (∀ k ∈ s.kinds, k.Fits s.registry) ∧
      ∀ fact, (fact ∈ e.once ∨ ∃ n, fact ∈ e.ofNode n) →
        ∃ d ∈ s.inputs, d.Admits s.registry fact := by
  obtain ⟨r₀, r₁, r₂, derived, hr₀, hr₁, hkinds, hderived, hinputs, -⟩ := derive_eq_ok h
  have hi := Registry.identifies_of_registerKinds
    (fun kind hkind hmem => hg.distinct _ hmem kind hkind rfl) hr₀ hr₁
  have hholds := Registry.holdsEnums_of_registerKinds hr₀ hr₁
  have hi₂ := (KindSchema.deriveAll_grows hkinds).1.identifies hi
  have hfits := KindSchema.deriveAll_fits hi hholds hg.declared hkinds
  constructor
  · exact fun k hk => (hfits k hk).extends (he.declare_extends hderived)
  · intro fact hfact
    obtain ⟨d, hd, hadmits⟩ := he.admits hi₂ hderived fact hfact
    exact ⟨d, by rw [hinputs]; exact List.mem_append_right _ hd, hadmits⟩

end Schema

end TreeFacts
