import TreeFacts.Proofs.Types.Store

namespace TreeFacts

namespace Registry

variable {r r' : Registry} {g : Grammar}

theorem registerKinds_eq_ok_iff :
    r.registerKinds g = .ok r' ↔ g.Rooted ∧ r' = { r with hierarchy := some g.hierarchy } := by
  unfold registerKinds
  constructor
  · intro h
    split at h
    next hierarchy hg =>
      cases h
      obtain ⟨rfl, hrooted⟩ := Grammar.ofGrammar_eq_ok_iff.mp hg
      exact ⟨hrooted, rfl⟩
    next => cases h
  · rintro ⟨hrooted, rfl⟩
    rw [Grammar.ofGrammar_eq_ok_iff.mpr ⟨rfl, hrooted⟩]

theorem ancestors_eq_ok_iff {h : Hierarchy} (hh : r.hierarchy = some h) {kind : String}
    {chain : List String} : r.ancestors kind = .ok chain ↔ h.Chain kind chain := by
  unfold ancestors
  rw [hh, Option.getD_some]
  constructor
  · intro hkind
    split at hkind
    next found hfound =>
      cases hkind
      exact Hierarchy.chain_eq_ok_iff.mp hfound
    next => cases hkind
  · intro hc
    rw [Hierarchy.chain_eq_ok_iff.mpr hc]

theorem identifierType_eq_ok_iff {h : Hierarchy} (hh : r.hierarchy = some h) {kind : String}
    {type : ColumnType} : r.identifierType kind = .ok (type, r') ↔
      ∃ chain, h.Chain kind chain ∧ r.internChain chain = (type, r') := by
  unfold identifierType
  rw [hh]
  simp only
  rw [map_eq_ok]
  exact exists_congr fun chain => and_congr_left fun _ => ancestors_eq_ok_iff hh

/-- Definitions were only added, each under a free name. -/
def Adds (r r' : Registry) : Prop := r.Extends r' ∧ (r.Built → r'.Built)

theorem adds_of_define {d : TypeDef} {type : Option ColumnType}
    (h : (r.define d).map (none, ·) = .ok (type, r')) : r.Adds r' := by
  obtain ⟨_, hdefine, heq⟩ := map_eq_ok.mp h
  cases heq
  exact ⟨define_extends hdefine, fun hb => hb.define hdefine⟩

theorem adds_of_grows {result : Except Error (ColumnType × Registry)} {type : Option ColumnType}
    (hgrows : ∀ {type r'}, result = .ok (type, r') → r.Grows r')
    (h : result.map (Prod.map some id) = .ok (type, r')) : r.Adds r' := by
  obtain ⟨_, hresult, heq⟩ := map_eq_ok.mp h
  cases heq
  have hg := hgrows hresult
  exact ⟨hg.extends, fun hb => hb.grows hg⟩

end Registry

namespace Operation

variable {r r' : Registry} {op : Operation}

/-- An operation that succeeds adds definitions or takes over the kinds of a grammar. -/
theorem apply_cases {type : Option ColumnType} (h : op.apply r = .ok (type, r')) :
    (registered? (op, .ok type) = none ∧ r.Adds r') ∨
      ∃ g, registered? (op, .ok type) = some g ∧ g.Rooted ∧
        r' = { r with hierarchy := some g.hierarchy } := by
  cases op with
  | define _ | registerEnum _ | registerRecord _ _ | registerUnion _ _ =>
    exact Or.inl ⟨rfl, Registry.adds_of_define h⟩
  | registerKinds g =>
    obtain ⟨_, hkinds, heq⟩ := map_eq_ok.mp h
    cases heq
    exact Or.inr ⟨g, rfl, Registry.registerKinds_eq_ok_iff.mp hkinds⟩
  | identifierType kind =>
    exact Or.inl ⟨rfl, Registry.adds_of_grows (fun hid => .single (.identifier hid)) h⟩
  | resolve type => exact Or.inl ⟨rfl, Registry.adds_of_grows Registry.resolve_grows h⟩
  | listType element =>
    exact Or.inl ⟨rfl, Registry.adds_of_grows (fun hlist => .single (.list hlist)) h⟩

theorem outcome_cases (op : Operation) (r : Registry) :
    (registered? (op, (op.outcome r).1) = none ∧ r.Adds (op.outcome r).2) ∨
      ∃ g, registered? (op, (op.outcome r).1) = some g ∧ g.Rooted ∧
        (op.outcome r).2 = { r with hierarchy := some g.hierarchy } := by
  unfold outcome
  cases h : op.apply r with
  | ok p => exact apply_cases h
  | error e =>
    refine Or.inl ⟨?_, Registry.Extends.refl r, id⟩
    cases op <;> rfl

theorem outcome_defs (op : Operation) (r : Registry) : r.defs <+: (op.outcome r).2.defs := by
  rcases outcome_cases op r with ⟨-, hadds, -⟩ | ⟨g, -, -, heq⟩
  · exact hadds.defs
  · have hsame : (op.outcome r).2.defs = r.defs := by rw [heq]
    exact hsame ▸ List.prefix_rfl

theorem outcome_kept (op : Operation) (hk : r.Kept) : (op.outcome r).2.Kept := by
  rcases outcome_cases op r with ⟨-, hadds, hbuilt⟩ | ⟨g, -, hg, heq⟩
  · refine ⟨hbuilt hk.built, fun h hh => hk.grounded h ?_⟩
    rw [← hadds.hierarchy]
    exact hh
  · rw [heq]
    refine ⟨hk.built.kinds _, fun h hh => ?_⟩
    cases hh
    exact hg.grounded

theorem applyAll_cons (r : Registry) (op : Operation) (ops : List Operation) :
    applyAll r (op :: ops) = ((op.outcome r).1 :: (applyAll (op.outcome r).2 ops).1,
      (applyAll (op.outcome r).2 ops).2) := rfl

theorem applyAll_defs (r : Registry) (ops : List Operation) :
    r.defs <+: (applyAll r ops).2.defs := by
  induction ops generalizing r with
  | nil => exact List.prefix_rfl
  | cons op ops ih => exact (outcome_defs op r).trans (ih (op.outcome r).2)

theorem applyAll_kept (hk : r.Kept) (ops : List Operation) : (applyAll r ops).2.Kept := by
  induction ops generalizing r with
  | nil => exact hk
  | cons op ops ih => exact ih (outcome_kept op hk)

/-- Operations on the store of a registry end, and do what they do to the registry. -/
theorem performAll_stored (hk : r.Kept) (ops : List Operation) :
    Ends (performAll · r.stored ops) ((applyAll r ops).1, (applyAll r ops).2.stored) := by
  induction ops generalizing r with
  | nil => exact ends_const rfl
  | cons op ops ih =>
    have hrest : Ends (performAll · (op.outcome r).2.stored ops)
        ((applyAll (op.outcome r).2 ops).1, (applyAll (op.outcome r).2 ops).2.stored) :=
      ih (outcome_kept op hk)
    show Ends (fun steps => (op.perform steps r.stored).bind fun first =>
      (performAll steps first.2 ops).bind fun rest => some (first.1 :: rest.1, rest.2)) _
    exact (perform_stored hk op).bind (hrest.bind (ends_const rfl))

theorem performAll_new (ops : List Operation) : Ends (performAll · .new ops)
    ((applyAll .empty ops).1, (applyAll .empty ops).2.stored) :=
  performAll_stored Registry.kept_empty ops

theorem lastGrammar?_cons (op : Operation) (ops : List Operation) (answer : Answer)
    (answers : List Answer) : lastGrammar? (op :: ops) (answer :: answers) =
      (lastGrammar? ops answers).or (registered? (op, answer)) := by
  unfold lastGrammar?
  rw [List.zip_cons_cons, List.reverse_cons, List.findSome?_append, List.findSome?_singleton]

/-- The kinds of a registry are those of the grammar registered last. -/
theorem applyAll_hierarchy (r : Registry) (ops : List Operation) :
    (applyAll r ops).2.hierarchy =
      ((lastGrammar? ops (applyAll r ops).1).map Grammar.hierarchy).or r.hierarchy := by
  induction ops generalizing r with
  | nil => rfl
  | cons op ops ih =>
    rw [applyAll_cons, lastGrammar?_cons]
    simp only
    rw [ih]
    rcases outcome_cases op r with ⟨hnone, hadds, -⟩ | ⟨g, hsome, -, heq⟩
    · rw [hnone, Option.or_none, hadds.hierarchy]
    · rw [hsome, heq]
      cases lastGrammar? ops _ with
      | none => rfl
      | some g' => rfl

theorem lastGrammar?_rooted {ops : List Operation} {g : Grammar}
    (h : lastGrammar? ops (applyAll r ops).1 = some g) : g.Rooted := by
  induction ops generalizing r with
  | nil => cases h
  | cons op ops ih =>
    rw [applyAll_cons, lastGrammar?_cons] at h
    cases hlater : lastGrammar? ops (applyAll (op.outcome r).2 ops).1 with
    | some g' =>
      rw [hlater, Option.some_or] at h
      cases h
      exact ih hlater
    | none =>
      rw [hlater, Option.none_or] at h
      rcases outcome_cases op r with ⟨hnone, -⟩ | ⟨g', hsome, hg, -⟩
      · rw [hnone] at h
        cases h
      · rw [hsome] at h
        cases h
        exact hg

theorem performAll_registered {ops : List Operation} {answers : List Answer} {s : Store}
    {g : Grammar} (hrun : Ends (performAll · .new ops) (answers, s))
    (hlast : lastGrammar? ops answers = some g) :
    ∃ r : Registry, s = r.stored ∧ r.Kept ∧ g.Rooted ∧ r.hierarchy = some g.hierarchy := by
  cases hrun.unique (performAll_new ops)
  have hh := applyAll_hierarchy .empty ops
  rw [hlast] at hh
  exact ⟨_, rfl, applyAll_kept Registry.kept_empty ops, lastGrammar?_rooted hlast, hh⟩

end Operation

/-- Definitions have different names, and the entry under each name is the position of the
definition, which is what is found there. The builtin types come first. -/
structure Store.Consistent (s : Store) : Prop where
  distinct : (s.defs.map (·.name)).Nodup
  positions : ∀ name i, s.byName.lookup name = some i ↔ (s.defs[i]?).map (·.name) = some name
  found : ∀ name, s.get? name = s.toRegistry.get? name
  builtin : [.subtype "id" .number, .subtype "bool" .number] <+: s.defs

theorem Registry.Kept.consistent {r : Registry} (hk : r.Kept) (h : Registry.empty.defs <+: r.defs) :
    r.stored.Consistent where
  distinct := hk.built.nodup
  positions _ _ := lookup_positions hk.built.nodup
  found _ := get?_stored hk.built.nodup
  builtin := h

/-- From a name, the search for the kinds above it ends, and so does that for identifier types. They
succeed for the kinds of the grammar and its root. -/
structure Store.Climbs (s : Store) (g : Grammar) (name : String) : Prop where
  ancestors : Ends (InPlace.ancestors · name s) (s.ancestors name, s)
  identifierType : ∃ s', Ends (InPlace.identifierType · name s)
    ((s.identifierType name).map (·.1), s')
  declared : (∃ chain, s.ancestors name = .ok chain) ↔ g.Declares name
  identified : (∃ type r, s.identifierType name = .ok (type, r)) ↔ g.Declares name
  chain : ∀ chain, s.ancestors name = .ok chain → g.hierarchy.Chain name chain ∧ chain.Nodup

theorem Registry.Kept.climbs {r : Registry} (hk : r.Kept) {g : Grammar} (hg : g.Rooted)
    (hh : r.hierarchy = some g.hierarchy) (name : String) : r.stored.Climbs g name where
  ancestors := InPlace.ancestors_ends hk name
  identifierType := (InPlace.identifierType_answers hk name).exists_store
  declared := by
    rw [← hg.exists_chain_iff]
    exact exists_congr fun chain => ancestors_eq_ok_iff hh
  identified := by
    rw [← hg.exists_chain_iff]
    constructor
    · rintro ⟨type, r', hid⟩
      obtain ⟨chain, hc, -⟩ := (identifierType_eq_ok_iff hh).mp hid
      exact ⟨chain, hc⟩
    · rintro ⟨chain, hc⟩
      exact ⟨_, _, (identifierType_eq_ok_iff hh).mpr ⟨chain, hc, rfl⟩⟩
  chain chain hchain := by
    have hc : g.hierarchy.Chain name chain := (ancestors_eq_ok_iff hh).mp hchain
    exact ⟨hc, hc.nodup⟩

namespace Operation

/-- Operations always end, with the answers of the registry itself. They only add definitions, and
one that fails changes nothing; what a type is read as stays the same. -/
theorem performAll_consistent (ops : List Operation) :
    ∃ answers s, Ends (performAll · .new ops) (answers, s) ∧
      applyAll .empty ops = (answers, s.toRegistry) ∧ s.Consistent ∧
      (∀ op : Operation, ∃ answer s', Ends (op.perform · s) (answer, s') ∧ s.defs <+: s'.defs ∧
        ∀ e, answer = .error e → s' = s) ∧
      ∀ more, ∃ answers' s', Ends (performAll · s more) (answers', s') ∧
        ∀ type c, s.classify type = .ok c → s'.classify type = .ok c := by
  have hk := applyAll_kept Registry.kept_empty ops
  refine ⟨_, _, performAll_new ops, rfl, hk.consistent (applyAll_defs .empty ops), ?_, ?_⟩
  · intro op
    refine ⟨_, _, perform_stored hk op, outcome_defs op _, ?_⟩
    intro e he
    unfold outcome at he ⊢
    cases hop : op.apply (applyAll .empty ops).2 with
    | ok p =>
      rw [hop] at he
      cases he
    | error e => rfl
  · intro more
    refine ⟨_, _, performAll_stored hk more, ?_⟩
    intro type c hc
    exact Registry.classify_mono (applyAll_defs _ more) hc

/-- An enumeration, a record that takes its name, lists of it, and a kind of no grammar. -/
def colors : List Operation :=
  [.registerEnum "Color", .registerRecord "Color" [], .listType (.named "Color"),
    .identifierType "Leaf"]

def colorAnswers : List Answer :=
  [.ok none, .error (.invalidGrammar (.typeDefinedTwice "Color")), .ok (some (.named "ColorList")),
    .error (.unknownKindType "Leaf")]

theorem performAll_consistent_colors :
    ∃ s, Ends (performAll · .new colors) (colorAnswers, s) ∧
      s.byName.lookup "ColorList" = some 3 ∧ s.classify (.named "ColorList") = .ok .record ∧
      ∀ more, ∃ answers s', Ends (performAll · s more) (answers, s') ∧
        s'.classify (.named "ColorList") = .ok .record := by
  have hanswers : (applyAll .empty colors).1 = colorAnswers := by decide +kernel
  have hthird : ((applyAll .empty colors).2.defs[3]?).map (·.name) = some "ColorList" := by
    decide +kernel
  have hlist : (applyAll .empty colors).2.classify (.named "ColorList") = .ok .record := by
    decide +kernel
  obtain ⟨answers, s, hrun, hsame, hc, -, hmore⟩ := performAll_consistent colors
  rw [hsame] at hanswers hthird hlist
  subst hanswers
  refine ⟨s, hrun, (hc.positions "ColorList" 3).mpr hthird, hlist, ?_⟩
  intro more
  obtain ⟨answers, s', hrun', hclass⟩ := hmore more
  exact ⟨answers, s', hrun', hclass _ _ hlist⟩

/-- Just the rooted grammars can be registered. Once one has been, whatever else was done, every
search upward ends. -/
theorem registerKinds_climbs :
    (∀ (g : Grammar) (s : Store), ∃ answer s', Ends (InPlace.registerKinds · g s) (answer, s') ∧
      (answer = .ok ⟨⟩ ↔ g.Rooted) ∧ ((∃ r, s.registerKinds g = .ok r) ↔ g.Rooted)) ∧
    ∀ {ops answers s g}, Ends (performAll · .new ops) (answers, s) →
      lastGrammar? ops answers = some g → ∀ name, s.Climbs g name := by
  constructor
  · intro g s
    have hkinds := InPlace.registerKinds_ends g s
    have hregistry : (∃ r, s.registerKinds g = .ok r) ↔ g.Rooted :=
      ⟨fun ⟨_, hr⟩ => (Registry.registerKinds_eq_ok_iff.mp hr).1,
        fun hg => ⟨_, Registry.registerKinds_eq_ok_iff.mpr ⟨hg, rfl⟩⟩⟩
    cases hg : Hierarchy.ofGrammar g with
    | ok h =>
      rw [hg] at hkinds
      have hrooted := (Grammar.ofGrammar_eq_ok_iff.mp hg).2
      exact ⟨_, _, hkinds, iff_of_true rfl hrooted, hregistry⟩
    | error fault =>
      rw [hg] at hkinds
      refine ⟨_, _, hkinds, iff_of_false (fun heq => by cases heq) fun hrooted => ?_, hregistry⟩
      rw [Grammar.ofGrammar_eq_ok_iff.mpr ⟨rfl, hrooted⟩] at hg
      cases hg
  · intro ops answers s g hrun hlast name
    obtain ⟨r, rfl, hk, hg, hh⟩ := performAll_registered hrun hlast
    exact hk.climbs hg hh name

/-- Two kinds, each the base of the other. -/
def circle : Grammar := ⟨"Node", [], [.abstract "Egg" "Hen", .abstract "Hen" "Egg"]⟩

def trees : Grammar := ⟨"Node", [], [.concrete "Oak" "Node" []]⟩

def plants : Grammar := ⟨"Node", [], [.concrete "Leaf" "Plant" [], .abstract "Plant" "Node"]⟩

/-- Two grammars after each other, with a circle before and behind. -/
def registrations : List Operation :=
  [.registerKinds circle, .registerKinds trees, .identifierType "Oak", .registerKinds plants,
    .registerKinds circle, .identifierType "Oak"]

theorem registerKinds_climbs_plants :
    ∃ answers s, Ends (performAll · .new registrations) (answers, s) ∧
      lastGrammar? registrations answers = some plants ∧ s.Climbs plants "Leaf" := by
  have hlast : lastGrammar? registrations (applyAll .empty registrations).1 = some plants := by
    decide +kernel
  have hrun := performAll_new registrations
  exact ⟨_, _, hrun, hlast, registerKinds_climbs.2 hrun hlast "Leaf"⟩

end Operation

end TreeFacts
