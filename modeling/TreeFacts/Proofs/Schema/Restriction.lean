import TreeFacts.Proofs.Schema.Below

namespace TreeFacts

open Registry (Below)

namespace FieldProjection

variable {r r' q : Registry} {h : Hierarchy} {enums : List String}

/-- The type of a field's values is settled by the definitions there are: its elements are of some
class, and those named in the enumeration list are symbols. -/
def Settled (r : Registry) (p : FieldProjection) : Prop :=
  ∃ element c, r.classify element = .ok c ∧ (p.semantic.entry?.isSome → c = .symbol) ∧
    (p.shape = .recordList ∧ r.IsListOf p.valueType element ∨
      p.shape ≠ .recordList ∧ p.valueType = element)

theorem Settled.extends {p : FieldProjection} (hp : p.Settled r) (he : r.Extends r') :
    p.Settled r' := by
  obtain ⟨element, c, hc, hentry, hshape⟩ := hp
  exact ⟨element, c, he.classify_eq hc, hentry, hshape.imp_left fun hl => ⟨hl.1, he.isListOf hl.2⟩⟩

theorem derive_below (hb : Below h enums q r) {kind : String}
    {field : Field} (hentry : ∀ name ∈ field.type.entry?, name ∈ enums) {p : FieldProjection}
    (hp : derive r kind field = .ok (p, r')) :
    ∃ q', derive q kind field = .ok (p, q') ∧ Below h enums q' r' ∧ p.Settled q' := by
  obtain ⟨element, r₁, valueType, hresolve, rfl, hshape⟩ := derive_eq_ok hp
  obtain ⟨q₁, hresolve', hb₁, c, hc, hsymbol⟩ := hb.resolve hentry hresolve
  rcases hshape with ⟨hshape, hlist⟩ | ⟨hshape, rfl, rfl⟩
  · obtain ⟨q', hlist', hb'⟩ := hb₁.listType hlist
    refine ⟨q', ?_, hb', element, c, ?_, hsymbol, Or.inl ⟨hshape, ?_⟩⟩
    · unfold derive
      simp only [hresolve', ok_bind, hshape, hlist', pure_eq_ok]
    · exact (Registry.listType_extends hlist').classify_eq hc
    · exact Registry.listType_isListOf hlist'
  · refine ⟨q₁, ?_, hb₁, valueType, c, hc, hsymbol, Or.inr ⟨hshape, rfl⟩⟩
    unfold derive
    rw [hresolve', ok_bind]
    simp only
    rfl

/-- Fields may be left out: those that remain are derived as before. -/
theorem deriveAll_below (hb : Below h enums q r)
    (keep : String → Bool) {kind : String} {fields : List Field}
    (hentry : ∀ field ∈ fields, ∀ name ∈ field.type.entry?, name ∈ enums)
    {ps : List FieldProjection} (hps : deriveAll kind r fields = .ok (ps, r')) :
    ∃ q', deriveAll kind q (fields.filter (keep ·.name)) = .ok (ps.filter (keep ·.field), q') ∧
      Below h enums q' r' ∧ ∀ p ∈ ps.filter (keep ·.field), p.Settled q' := by
  induction fields generalizing r q ps with
  | nil =>
    cases hps
    exact ⟨q, rfl, hb, by simp⟩
  | cons field fields ih =>
    unfold deriveAll at hps
    obtain ⟨⟨p, r₁⟩, hp, hps⟩ := bind_eq_ok.mp hps
    obtain ⟨⟨rest, r₂⟩, hrest, hps⟩ := bind_eq_ok.mp hps
    cases hps
    have hfirst := hentry field List.mem_cons_self
    have hothers := fun other hother => hentry other (List.mem_cons_of_mem _ hother)
    have hname : p.field = field.name := by
      obtain ⟨_, _, _, -, rfl, -⟩ := derive_eq_ok hp
      rfl
    cases hkeep : keep field.name with
    | false =>
      simp only [List.filter_cons, hname, hkeep, Bool.false_eq_true, if_false]
      exact ih (hb.grows (derive_grows hp)) hothers hrest
    | true =>
      obtain ⟨q₁, hp', hb₁, hsettled⟩ := derive_below hb hfirst hp
      obtain ⟨q', hrest', hb', hall⟩ := ih hb₁ hothers hrest
      simp only [List.filter_cons, hname, hkeep, if_true]
      refine ⟨q', ?_, hb', ?_⟩
      · unfold deriveAll
        simp only [hp', ok_bind, hrest', pure_eq_ok]
      · intro other hother
        rcases List.mem_cons.mp hother with rfl | hother
        · exact hsettled.extends (deriveAll_grows hrest').extends
        · exact hall other hother

end FieldProjection

/-- Whatever one skip set leaves out, the other does as well. -/
structure SkipSet.Within (skip skip' : SkipSet) : Prop where
  everywhere : skip.everywhere ⊆ skip'.everywhere
  pairs : skip.pairs ⊆ skip'.pairs

theorem SkipSet.Within.contains {skip skip' : SkipSet} (h : skip.Within skip') {kind field : String}
    (hskip : skip.contains kind field = true) : skip'.contains kind field = true := by
  unfold SkipSet.contains at hskip ⊢
  rw [Bool.or_eq_true, List.contains_iff_mem, List.contains_iff_mem] at hskip ⊢
  exact hskip.imp (fun hmem => h.everywhere hmem) fun hmem => h.pairs hmem

namespace KindSchema

/-- A kind without the fields of a skip set. -/
def without (skip : SkipSet) (k : KindSchema) : KindSchema :=
  { k with fields := k.fields.filter fun p => !skip.contains k.name p.field }

variable {r r' q : Registry} {h : Hierarchy} {enums : List String} {skip skip' : SkipSet}

theorem derive_below (hb : Below h enums q r)
    (hskip : skip.Within skip') {kind : NodeKind}
    (hentry : ∀ field ∈ kind.fields, ∀ name ∈ field.type.entry?, name ∈ enums) {k : KindSchema}
    (hk : derive skip r kind = .ok (k, r')) :
    ∃ q', derive skip' q kind = .ok (k.without skip', q') ∧ Below h enums q' r' ∧
      ∀ p ∈ (k.without skip').fields, p.Settled q' := by
  obtain ⟨idType, r₁, ps, hid, hps, rfl⟩ := derive_eq_ok hk
  obtain ⟨q₁, hid', hb₁, -⟩ := hb.identifierType hid
  -- The fields left by the greater set are among those left by the lesser.
  have hfields : (if kind.isAbstract then [] else
        kind.fields.filter fun field => !skip'.contains kind.name field.name) =
      (if kind.isAbstract then [] else
        kind.fields.filter fun field => !skip.contains kind.name field.name).filter
          fun field => !skip'.contains kind.name field.name := by
    split
    next => rfl
    next =>
      rw [List.filter_filter]
      refine List.filter_congr fun field _ => ?_
      cases hleft : skip.contains kind.name field.name with
      | false => simp
      | true => simp [hskip.contains hleft]
  have hentry' : ∀ field ∈ (if kind.isAbstract then [] else
      kind.fields.filter fun field => !skip.contains kind.name field.name),
      ∀ name ∈ field.type.entry?, name ∈ enums := by
    intro field hfield
    split at hfield
    next => simp at hfield
    next => exact hentry field (List.mem_filter.mp hfield).1
  obtain ⟨q', hps', hb', hsettled⟩ := FieldProjection.deriveAll_below hb₁
    (fun field => !skip'.contains kind.name field) hentry' hps
  refine ⟨q', ?_, hb', hsettled⟩
  unfold derive
  simp only [hid', ok_bind, hfields, hps', pure_eq_ok]
  rfl

theorem deriveAll_below (hb : Below h enums q r)
    (hskip : skip.Within skip') {kinds : List NodeKind}
    (hentry : ∀ kind ∈ kinds, ∀ field ∈ kind.fields, ∀ name ∈ field.type.entry?, name ∈ enums)
    {ks : List KindSchema} (hks : deriveAll skip r kinds = .ok (ks, r')) :
    ∃ q', deriveAll skip' q kinds = .ok (ks.map (without skip'), q') ∧ Below h enums q' r' ∧
      ∀ k ∈ ks.map (without skip'), ∀ p ∈ k.fields, p.Settled q' := by
  induction kinds generalizing r q ks with
  | nil =>
    cases hks
    exact ⟨q, rfl, hb, by simp⟩
  | cons kind kinds ih =>
    unfold deriveAll at hks
    obtain ⟨⟨k, r₁⟩, hk, hks⟩ := bind_eq_ok.mp hks
    obtain ⟨⟨rest, r₂⟩, hrest, hks⟩ := bind_eq_ok.mp hks
    cases hks
    obtain ⟨q₁, hk', hb₁, hsettled⟩ :=
      derive_below hb hskip (hentry kind List.mem_cons_self) hk
    obtain ⟨q', hrest', hb', hall⟩ := ih hb₁
      (fun other hother => hentry other (List.mem_cons_of_mem _ hother)) hrest
    refine ⟨q', ?_, hb', ?_⟩
    · unfold deriveAll
      simp only [hk', ok_bind, hrest', pure_eq_ok, List.map_cons]
    · intro other hother p hp
      rcases List.mem_cons.mp hother with rfl | hother
      · exact (hsettled p hp).extends (deriveAll_grows hrest').1.extends
      · exact hall other hother p hp

end KindSchema

/-- An enrichment fills no relations but those it declares, and declares them alike whatever else is
defined. -/
structure Enrichment.Uniform (e : Enrichment) : Prop where
  builds : e.Builds
  declares : ∀ {r r' relations}, e.declare r = .ok (relations, r') →
    ∀ fact, (fact ∈ e.once ∨ ∃ n, fact ∈ e.ofNode n) → fact.1 ∈ relations.map (·.name)
  below : ∀ {h enums q r r' relations}, Below h enums q r → e.declare r = .ok (relations, r') →
    ∃ q', e.declare q = .ok (relations, q') ∧ Below h enums q' r' ∧ q.Extends q'

theorem Enrichment.none_uniform : none.Uniform where
  builds := none_builds
  declares _ fact hfact := by
    rcases hfact with h | ⟨_, h⟩
    · cases h
    · cases h
  below hb h := by
    cases h
    exact ⟨_, rfl, hb, .refl _⟩

theorem Solidity.enrichment_uniform (version? : Option Version) :
    (enrichment version?).Uniform where
  builds := enrichment_builds version?
  declares h fact hfact := by
    obtain ⟨_, _, _, _, _, _, _, -, -, -, -, rfl⟩ := declareRelations_eq_ok h
    rcases hfact with hfact | ⟨n, hfact⟩
    · change fact ∈ versionFacts version? at hfact
      unfold versionFacts at hfact
      split at hfact
      next =>
        rw [List.mem_singleton.mp hfact]
        simp [relations]
      next => cases hfact
    · rcases mem_nodeFacts hfact with rfl | rfl | ⟨kind, rfl | rfl, s, rfl | rfl⟩ <;>
        simp [relations]
  below := by
    intro h enums q r r' rs hb hdeclare
    obtain ⟨expression, call, function, declaration, r₁, r₂, r₃, h₁, h₂, h₃, h₄, rfl⟩ :=
      declareRelations_eq_ok hdeclare
    obtain ⟨q₁, h₁', hb₁, -⟩ := hb.identifierType h₁
    obtain ⟨q₂, h₂', hb₂, -⟩ := hb₁.identifierType h₂
    obtain ⟨q₃, h₃', hb₃, -⟩ := hb₂.identifierType h₃
    obtain ⟨q₄, h₄', hb₄, -⟩ := hb₃.identifierType h₄
    have hsame : declareRelations q = .ok (relations expression call function declaration, q₄) := by
      unfold declareRelations
      simp only [h₁', h₂', h₃', h₄', ok_bind, pure_eq_ok]
      rfl
    exact ⟨q₄, hsame, hb₄, (declareRelations_grows hsame).extends⟩

namespace Schema

variable {g : Grammar} {skip skip' : SkipSet} {e : Enrichment} {s : Schema} {k : KindSchema}

/-- The relations of the fields that a skip set leaves out. -/
def skipped (s : Schema) (skip : SkipSet) : List String :=
  s.kinds.flatMap fun k =>
    (k.fields.filter fun p => skip.contains k.name p.field).map (·.relation)

/-- A schema without the fields of a skip set, with the definitions that it then takes. -/
def without (s : Schema) (skip : SkipSet) (registry : Registry) : Schema :=
  { s with
    registry
    inputs := s.inputs.filter fun r => r.name ∉ s.skipped skip
    kinds := s.kinds.map (.without skip) }

theorem mem_skipped {name : String} : name ∈ s.skipped skip ↔
    ∃ k ∈ s.kinds, ∃ p ∈ k.fields, skip.contains k.name p.field = true ∧ p.relation = name := by
  simp [skipped, and_assoc]

theorem mem_names_of_mem_skipped (h : derive g skip e = .ok s) {name : String}
    (hname : name ∈ s.skipped skip') :
    ∃ k ∈ s.kinds, name ∈ k.names ∧ name ∈ k.fields.map (·.relation) := by
  obtain ⟨k, hk, p, hp, -, rfl⟩ := mem_skipped.mp hname
  have hmem : p.relation ∈ k.fields.map (·.relation) := List.mem_map_of_mem hp
  refine ⟨k, hk, ?_, hmem⟩
  rw [KindSchema.names_eq (isAbstract_eq_false h hk hp)]
  exact List.mem_cons_of_mem _ hmem

theorem relation_mem_skipped (h : derive g skip e = .ok s) (hk : k ∈ s.kinds) {p : FieldProjection}
    (hp : p ∈ k.fields) : p.relation ∈ s.skipped skip' ↔ skip'.contains k.name p.field = true := by
  constructor
  · intro hmem
    obtain ⟨k', hk', p', hp', hskip, hname⟩ := mem_skipped.mp hmem
    have hc := isAbstract_eq_false h hk hp
    have hc' := isAbstract_eq_false h hk' hp'
    have hn : p.relation ∈ k.names := by
      rw [KindSchema.names_eq hc]
      exact List.mem_cons_of_mem _ (List.mem_map_of_mem hp)
    have hn' : p.relation ∈ k'.names := by
      rw [KindSchema.names_eq hc', ← hname]
      exact List.mem_cons_of_mem _ (List.mem_map_of_mem hp')
    have hsame := eq_of_mem_names h hk hk' hn hn'
    subst hsame
    have heq := List.inj_on_of_nodup_map (nodup_relations h hk hc).1 hp' hp hname
    rwa [heq] at hskip
  · intro hskip
    exact mem_skipped.mpr ⟨k, hk, p, hp, hskip, rfl⟩

theorem name_notMem_skipped (h : derive g skip e = .ok s) (hk : k ∈ s.kinds)
    (hc : k.isAbstract = false) : k.name ∉ s.skipped skip' := by
  intro hmem
  obtain ⟨k', hk', hn', hfields⟩ := mem_names_of_mem_skipped h hmem
  have hn : k.name ∈ k.names := by
    rw [KindSchema.names_eq hc]
    exact List.mem_cons_self
  have hsame := eq_of_mem_names h hk hk' hn hn'
  subst hsame
  exact (nodup_relations h hk hc).2 hfields

theorem tree_notMem_skipped (h : derive g skip e = .ok s) :
    parentRelation.name ∉ s.skipped skip' ∧ srcRelation.name ∉ s.skipped skip' := by
  constructor
  · intro hmem
    obtain ⟨k, hk, hn, -⟩ := mem_names_of_mem_skipped h hmem
    exact ((nodup_names h).2 k hk _ hn).1 rfl
  · intro hmem
    obtain ⟨k, hk, hn, -⟩ := mem_names_of_mem_skipped h hmem
    exact ((nodup_names h).2 k hk _ hn).2 rfl

/-- Also those that only rules fill have names of their own. -/
theorem nodup_relationNames (h : derive g skip e = .ok s) : (s.relations.map (·.name)).Nodup := by
  unfold derive at h
  obtain ⟨r₀, -, h⟩ := bind_eq_ok.mp h
  obtain ⟨r₁, -, h⟩ := bind_eq_ok.mp h
  obtain ⟨⟨kinds, r₂⟩, -, h⟩ := bind_eq_ok.mp h
  obtain ⟨⟨derived, r₃⟩, -, h⟩ := bind_eq_ok.mp h
  simp only at h
  split at h
  next => cases h
  next hrepeated =>
    cases h
    exact (repeated?_eq_none hrepeated).1

theorem notMem_skipped (h : derive g skip e = .ok s) {front back : List String}
    (hn : (front ++ back).Nodup) (hfront : ∀ k ∈ s.kinds, ∀ name ∈ k.names, name ∈ front)
    {name : String} (hname : name ∈ back) : name ∉ s.skipped skip' := by
  intro hmem
  obtain ⟨k, hk, hown, -⟩ := mem_names_of_mem_skipped h hmem
  exact (List.nodup_append.mp hn).2.2 name (hfront k hk name hown) name hname rfl

theorem derived_notMem_skipped (h : derive g skip e = .ok s) {front derived : List Relation}
    (hinputs : s.inputs = front ++ s.kinds.flatMap KindSchema.inputs ++ derived) {name : String}
    (hname : name ∈ derived.map (·.name)) : name ∉ s.skipped skip' := by
  obtain ⟨_, _, _, _, -, -, -, -, -, hn, -⟩ := derive_eq_ok h
  rw [hinputs, List.map_append] at hn
  refine notMem_skipped h hn (fun k hk own hown => ?_) hname
  obtain ⟨r, hr, rfl⟩ := List.mem_map.mp hown
  have hmem : r ∈ s.kinds.flatMap KindSchema.inputs := List.mem_flatMap.mpr ⟨k, hk, hr⟩
  exact List.mem_map_of_mem (List.mem_append_right _ hmem)

theorem markers_notMem_skipped (h : derive g skip e = .ok s) {name : String}
    (hname : name ∈ s.markers.map (·.name)) : name ∉ s.skipped skip' := by
  have hn := nodup_relationNames h
  rw [relations, List.map_append] at hn
  refine notMem_skipped h hn (fun k hk own hown => ?_) hname
  obtain ⟨r, hr, rfl⟩ := List.mem_map.mp hown
  exact List.mem_map_of_mem (mem_inputs h hk hr)

theorem repeated?_of_nodup {seen names : List String} (hn : names.Nodup)
    (hfresh : ∀ name ∈ names, name ∉ seen) : repeated? seen names = none := by
  induction names generalizing seen with
  | nil => rfl
  | cons name names ih =>
    obtain ⟨hother, hrest⟩ := List.nodup_cons.mp hn
    have hname : seen.contains name = false := by simpa using hfresh name List.mem_cons_self
    rw [repeated?, if_neg (by rw [hname]; decide)]
    refine ih hrest fun next hnext hmem => ?_
    rcases List.mem_cons.mp hmem with rfl | hmem
    · exact hother hnext
    · exact hfresh next (List.mem_cons_of_mem _ hnext) hmem

theorem inputs_without (h : derive g skip e = .ok s) (hk : k ∈ s.kinds) :
    (k.without skip').inputs = k.inputs.filter fun r => r.name ∉ s.skipped skip' := by
  have habstract : (k.without skip').isAbstract = k.isAbstract := rfl
  cases hc : k.isAbstract with
  | true =>
    have hnone : k.inputs = [] := if_pos hc
    rw [hnone]
    exact if_pos (habstract.trans hc)
  | false =>
    have hown : k.membership.name ∉ s.skipped skip' := name_notMem_skipped h hk hc
    have hinputs : k.inputs = k.membership :: k.fields.map (·.toRelation k.idType) :=
      if_neg (by rw [hc]; decide)
    have hinputs' : (k.without skip').inputs =
        k.membership :: (k.without skip').fields.map (·.toRelation k.idType) :=
      if_neg (by rw [habstract, hc]; decide)
    rw [hinputs, hinputs']
    simp only [List.filter_cons, decide_eq_true hown, if_true, List.filter_map]
    refine congrArg (k.membership :: List.map _ ·) (List.filter_congr fun p hp => ?_)
    have hiff : p.relation ∈ s.skipped skip' ↔ skip'.contains k.name p.field = true :=
      relation_mem_skipped h hk hp
    show (!skip'.contains k.name p.field) = decide (p.relation ∉ s.skipped skip')
    cases hskip : skip'.contains k.name p.field with
    | true => simpa using hiff.mpr hskip
    | false => simpa [hskip] using hiff

theorem root_eq (h : derive g skip e = .ok s) : s.root = g.root := by
  unfold derive at h
  obtain ⟨_, -, h⟩ := bind_eq_ok.mp h
  obtain ⟨_, -, h⟩ := bind_eq_ok.mp h
  obtain ⟨⟨_, _⟩, -, h⟩ := bind_eq_ok.mp h
  obtain ⟨⟨_, _⟩, -, h⟩ := bind_eq_ok.mp h
  simp only at h
  split at h
  next => cases h
  next =>
    cases h
    rfl

theorem derive_of_nodup {r₀ r₁ r₂ : Registry} {derived : List Relation}
    (hr₀ : g.enums.foldlM Registry.registerEnum Registry.empty = .ok r₀)
    (hr₁ : r₀.registerKinds g = .ok r₁)
    (hkinds : KindSchema.deriveAll skip r₁ g.kinds = .ok (s.kinds, r₂))
    (hderived : e.declare r₂ = .ok (derived, s.registry)) (hroot : s.root = g.root)
    (hinputs : s.inputs = [parentRelation, srcRelation] ++ s.kinds.flatMap KindSchema.inputs ++ derived)
    (hmarkers : s.markers = ⟨g.root, [("id", .id)]⟩ ::
      (s.kinds.filter KindSchema.isAbstract).map KindSchema.membership)
    (hrules : s.rules = s.kinds.flatMap (KindSchema.rules g.root))
    (hn : (s.relations.map (·.name)).Nodup) : derive g skip e = .ok s := by
  obtain ⟨root, registry, inputs, markers, rules, kinds⟩ := s
  simp only at hkinds hderived hroot hinputs hmarkers hrules
  have hrepeated := @repeated?_of_nodup [] _ hn (by simp)
  rw [relations, hinputs, hmarkers] at hrepeated
  unfold derive
  simp only [hr₀, hr₁, hkinds, hderived, ok_bind]
  rw [hrepeated, hroot, hinputs, hmarkers, hrules]
  rfl

/-- A derivation with a greater skip set makes the same schema without what that leaves out. -/
theorem derive_without (he : e.Uniform) (hskip : skip.Within skip')
    (hentry : ∀ kind ∈ g.kinds, ∀ field ∈ kind.fields, ∀ name ∈ field.type.entry?, name ∈ g.enums)
    (h : derive g skip e = .ok s) :
    ∃ q, derive g skip' e = .ok (s.without skip' q) ∧ Below g.hierarchy g.enums q s.registry ∧
      q.Built ∧ ∀ k ∈ s.kinds, ∀ p ∈ (k.without skip').fields, p.Settled q := by
  obtain ⟨r₀, r₁, r₂, derived, hr₀, hr₁, hkinds, hderived, hinputs, -, hmarkers, hrules⟩ :=
    derive_eq_ok h
  have hstart := Below.of_registerKinds hr₀ hr₁
  obtain ⟨q₂, hkinds', hb₂, hsettled⟩ :=
    KindSchema.deriveAll_below hstart hskip hentry hkinds
  obtain ⟨q, hderived', hb, hextends⟩ := he.below hb₂ hderived
  have hnames := nodup_relationNames h
  have hsub : (s.without skip' q).relations.Sublist s.relations :=
    List.Sublist.append List.filter_sublist (List.Sublist.refl _)
  have hderive : derive g skip' e = .ok (s.without skip' q) := by
    refine derive_of_nodup hr₀ hr₁ hkinds' hderived' (show s.root = g.root from root_eq h) ?_ ?_ ?_
      (hnames.sublist (hsub.map _))
    · show (s.inputs.filter fun r => r.name ∉ s.skipped skip') =
        [parentRelation, srcRelation] ++ (s.kinds.map (.without skip')).flatMap KindSchema.inputs ++
          derived
      rw [hinputs, List.filter_append, List.filter_append, List.filter_flatMap, List.flatMap_map]
      have htree : [parentRelation, srcRelation].filter (fun r => r.name ∉ s.skipped skip') =
          [parentRelation, srcRelation] := by
        obtain ⟨hparent, hsrc⟩ : parentRelation.name ∉ s.skipped skip' ∧
          srcRelation.name ∉ s.skipped skip' := tree_notMem_skipped h
        simp [hparent, hsrc]
      have hmore : derived.filter (fun r => r.name ∉ s.skipped skip') = derived := by
        refine List.filter_eq_self.mpr fun r hr => decide_eq_true ?_
        exact derived_notMem_skipped h hinputs (List.mem_map_of_mem hr)
      rw [htree, hmore, List.flatMap_congr fun k hk => (inputs_without h hk).symm]
    · show s.markers = ⟨g.root, [("id", .id)]⟩ ::
        ((s.kinds.map (.without skip')).filter KindSchema.isAbstract).map KindSchema.membership
      rw [hmarkers, List.filter_map, List.map_map]
      rfl
    · show s.rules = (s.kinds.map (.without skip')).flatMap (KindSchema.rules g.root)
      rw [hrules, List.flatMap_map]
      rfl
  exact ⟨q, hderive, hb, derive_built he.builds hderive,
    fun k hk p hp => (hsettled _ (List.mem_map_of_mem hk) p hp).extends hextends⟩

end Schema

end TreeFacts
