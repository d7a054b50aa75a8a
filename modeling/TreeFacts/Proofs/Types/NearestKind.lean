import TreeFacts.Proofs.Types.Operations

namespace TreeFacts

namespace Grammar

variable {g : Grammar} {names names' : List String} {kind kind' : String}

/-- The kind above all the named ones, which is below every other such kind. -/
structure IsNearest (g : Grammar) (names : List String) (kind : String) : Prop where
  above : ∀ name ∈ names, g.Refines name kind
  least : ∀ other, (∀ name ∈ names, g.Refines name other) → g.Refines kind other

theorem IsNearest.unique (hg : g.Rooted) (hkind : g.IsNearest names kind)
    (hkind' : g.IsNearest names kind') : kind = kind' :=
  hg.refines_antisymm (hkind.least kind' hkind'.above) (hkind'.least kind hkind.above)

theorem isNearest_congr (hsame : ∀ name, name ∈ names ↔ name ∈ names') :
    g.IsNearest names kind ↔ g.IsNearest names' kind := by
  have hall : ∀ other, (∀ name ∈ names, g.Refines name other) ↔
      ∀ name ∈ names', g.Refines name other :=
    fun _ => forall_congr' fun name => imp_congr_left (hsame name)
  constructor
  · intro h
    exact ⟨(hall kind).mp h.above, fun other hother => h.least other ((hall other).mpr hother)⟩
  · intro h
    exact ⟨(hall kind).mpr h.above, fun other hother => h.least other ((hall other).mp hother)⟩

theorem Rooted.exists_chains (hg : g.Rooted) (hnames : ∀ name ∈ names, g.Declares name) :
    ∃ chains, List.Forall₂ g.hierarchy.Chain names chains := by
  induction names with
  | nil => exact ⟨[], .nil⟩
  | cons name names ih =>
    obtain ⟨chain, hc⟩ := hg.exists_chain_iff.mpr (hnames name List.mem_cons_self)
    obtain ⟨chains, hchains⟩ := ih fun other hother => hnames other (List.mem_cons_of_mem _ hother)
    exact ⟨chain :: chains, .cons hc hchains⟩

theorem Rooted.refines_iff_on_all (hg : g.Rooted) {chains : List (List String)}
    (hchains : List.Forall₂ g.hierarchy.Chain names chains) :
    (∀ name ∈ names, g.Refines name kind) ↔ ∀ chain ∈ chains, kind ∈ chain := by
  induction hchains with
  | nil => simp
  | cons hc _ ih => rw [List.forall_mem_cons, List.forall_mem_cons, ih, hg.mem_chain_iff hc]

/-- The first kind of one chain that is on all the others is the nearest one: those behind it are
the kinds above it, and none before it is on all the chains. -/
theorem Rooted.nearestCommon?_isNearest (hg : g.Rooted) (hne : names ≠ [])
    {chains : List (List String)} (hchains : List.Forall₂ g.hierarchy.Chain names chains) :
    ∃ kind, Registry.nearestCommon? chains = some kind ∧ g.IsNearest names kind := by
  cases hchains with
  | nil => exact absurd rfl hne
  | @cons name chain names chains hc hrest =>
    have hall : ∀ kind, (∀ other ∈ name :: names, g.Refines other kind) ↔
        ∀ other ∈ chain :: chains, kind ∈ other :=
      fun _ => hg.refines_iff_on_all (.cons hc hrest)
    have hon : ∀ kind, chains.all (·.contains kind) = true ↔ ∀ other ∈ chains, kind ∈ other := by
      intro kind
      simp only [List.all_eq_true, List.contains_iff_mem]
    have hroot : ∀ other ∈ chains, g.root ∈ other := by
      intro other hother
      obtain ⟨_, -, hc'⟩ := exists_of_forall₂ hrest hother
      exact hc'.root_mem
    have hsome : (chain.find? fun kind => chains.all (·.contains kind)).isSome :=
      List.find?_isSome.mpr ⟨g.root, hc.root_mem, (hon g.root).mpr hroot⟩
    obtain ⟨kind, hfind⟩ := Option.isSome_iff_exists.mp hsome
    obtain ⟨hkind, before, behind, rfl, hbefore⟩ := List.find?_eq_some_iff_append.mp hfind
    refine ⟨kind, hfind, (hall kind).mpr ?_, ?_⟩
    · exact List.forall_mem_cons.mpr ⟨by simp, (hon kind).mp hkind⟩
    · intro other hother
      obtain ⟨hmem, hothers⟩ := List.forall_mem_cons.mp ((hall other).mp hother)
      refine (hg.mem_chain_iff hc.of_append).mp ?_
      rcases List.mem_append.mp hmem with hmem | hmem
      · have hnot := hbefore other hmem
        rw [(hon other).mpr hothers] at hnot
        cases hnot
      · exact hmem

theorem Rooted.exists_isNearest (hg : g.Rooted) (hne : names ≠ [])
    (hnames : ∀ name ∈ names, g.Declares name) :
    ∃ kind, g.IsNearest names kind ∧ g.Declares kind := by
  obtain ⟨chains, hchains⟩ := hg.exists_chains hnames
  obtain ⟨kind, -, hkind⟩ := hg.nearestCommon?_isNearest hne hchains
  obtain ⟨name, hname⟩ := List.exists_mem_of_ne_nil names hne
  exact ⟨kind, hkind, hg.declares_of_refines (hnames name hname) (hkind.above name hname)⟩

end Grammar

namespace Registry

variable {r r' : Registry} {g : Grammar} {names : List String}

theorem internChain_fst (r : Registry) {h : Hierarchy} {kind : String} {chain : List String}
    (hc : h.Chain kind chain) : (r.internChain chain).1 = h.identifier kind := by
  unfold Hierarchy.identifier
  cases hc with
  | root =>
    rw [if_pos rfl]
    rfl
  | base hroot _ hrest =>
    obtain ⟨_, rfl⟩ := hrest.exists_cons
    rw [if_neg hroot]
    rfl

theorem mapM_ancestors_eq_ok_iff {h : Hierarchy} (hh : r.hierarchy = some h)
    {chains : List (List String)} :
    names.mapM r.ancestors = .ok chains ↔ List.Forall₂ h.Chain names chains := by
  rw [mapM_eq_ok]
  constructor
  · exact List.Forall₂.imp fun _ _ => (ancestors_eq_ok_iff hh).mp
  · exact List.Forall₂.imp fun _ _ => (ancestors_eq_ok_iff hh).mpr

theorem commonIdentifierType_eq_ok_iff (hg : g.Rooted) (hh : r.hierarchy = some g.hierarchy)
    (hne : names ≠ []) {type : ColumnType} :
    r.commonIdentifierType names = .ok (type, r') ↔ (∀ name ∈ names, g.Declares name) ∧
      ∃ kind, g.IsNearest names kind ∧ r.identifierType kind = .ok (type, r') := by
  unfold commonIdentifierType
  rw [bind_eq_ok]
  constructor
  · rintro ⟨chains, hmap, hresult⟩
    have hchains := (mapM_ancestors_eq_ok_iff hh).mp hmap
    obtain ⟨kind, hfound, hkind⟩ := hg.nearestCommon?_isNearest hne hchains
    rw [hfound] at hresult
    refine ⟨fun name hname => ?_, kind, hkind, hresult⟩
    obtain ⟨chain, -, hc⟩ := exists_of_forall₂ hchains.flip hname
    exact hg.exists_chain_iff.mp ⟨chain, hc⟩
  · rintro ⟨hnames, kind, hkind, hresult⟩
    obtain ⟨chains, hchains⟩ := hg.exists_chains hnames
    obtain ⟨kind', hfound, hkind'⟩ := hg.nearestCommon?_isNearest hne hchains
    refine ⟨chains, (mapM_ancestors_eq_ok_iff hh).mpr hchains, ?_⟩
    rw [hfound, hkind'.unique hg hkind]
    exact hresult

end Registry

/-- A union of kinds resolves if all of them are kinds of the grammar or its root. Its type is then
the identifier type of the nearest kind above them, in whatever order they are named and how
often. -/
structure Store.Unites (s : Store) (g : Grammar) (names : List String) : Prop where
  resolves : ∃ s', Ends (InPlace.resolve · (.nodeUnion names) s)
    ((s.resolve (.nodeUnion names)).map (·.1), s')
  declared : (∃ type r, s.resolve (.nodeUnion names) = .ok (type, r)) ↔
    ∀ name ∈ names, g.Declares name
  nearest : ∀ type r, s.resolve (.nodeUnion names) = .ok (type, r) →
    ∃ kind, g.IsNearest names kind ∧ (∀ other, g.IsNearest names other → other = kind) ∧
      type = g.hierarchy.identifier kind ∧ s.identifierType kind = .ok (type, r)
  same : ∀ names', (∀ name, name ∈ names ↔ name ∈ names') → ∀ type r,
    s.resolve (.nodeUnion names') = .ok (type, r) ↔ s.resolve (.nodeUnion names) = .ok (type, r)

theorem Registry.Kept.unites {r : Registry} (hk : r.Kept) {g : Grammar} (hg : g.Rooted)
    (hh : r.hierarchy = some g.hierarchy) {names : List String} (hne : names ≠ []) :
    r.stored.Unites g names where
  resolves := (InPlace.resolve_answers hk (.nodeUnion names)).exists_store
  declared := by
    constructor
    · rintro ⟨type, r', hresult⟩
      exact ((commonIdentifierType_eq_ok_iff hg hh hne).mp hresult).1
    · intro hnames
      obtain ⟨kind, hkind, hdeclared⟩ := hg.exists_isNearest hne hnames
      obtain ⟨chain, hc⟩ := hg.exists_chain_iff.mpr hdeclared
      have hid : r.identifierType kind = .ok (r.internChain chain) :=
        (identifierType_eq_ok_iff hh).mpr ⟨chain, hc, rfl⟩
      exact ⟨_, _, (commonIdentifierType_eq_ok_iff hg hh hne).mpr ⟨hnames, kind, hkind, hid⟩⟩
  nearest type r' hresult := by
    obtain ⟨-, kind, hkind, hid⟩ := (commonIdentifierType_eq_ok_iff hg hh hne).mp hresult
    obtain ⟨chain, hc, hintern⟩ := (identifierType_eq_ok_iff hh).mp hid
    have htype := internChain_fst r hc
    rw [hintern] at htype
    exact ⟨kind, hkind, fun other hother => hother.unique hg hkind, htype, hid⟩
  same names' hsame type r' := by
    have hne' : names' ≠ [] := by
      obtain ⟨name, hname⟩ := List.exists_mem_of_ne_nil names hne
      exact List.ne_nil_of_mem ((hsame name).mp hname)
    show r.commonIdentifierType names' = _ ↔ r.commonIdentifierType names = _
    rw [commonIdentifierType_eq_ok_iff hg hh hne', commonIdentifierType_eq_ok_iff hg hh hne]
    refine and_congr (forall_congr' fun name => imp_congr_left (hsame name).symm) ?_
    exact exists_congr fun kind => and_congr_left' (Grammar.isNearest_congr hsame).symm

namespace Operation

/-- Once a grammar has been registered, unions of its kinds resolve to the nearest kind above. -/
theorem registerKinds_unites {ops : List Operation} {answers : List Answer} {s : Store}
    {g : Grammar} {names : List String} (hrun : Ends (performAll · .new ops) (answers, s))
    (hlast : lastGrammar? ops answers = some g) (hne : names ≠ []) : s.Unites g names := by
  obtain ⟨r, rfl, hk, hg, hh⟩ := performAll_registered hrun hlast
  exact hk.unites hg hh hne

/-- Kinds at different depths. -/
def garden : Grammar :=
  ⟨"Node", [], [.concrete "Oak" "Tree" [], .concrete "Pine" "Tree" [], .abstract "Tree" "Plant",
    .concrete "Moss" "Plant" [], .abstract "Plant" "Node"]⟩

def gardenKinds : List Operation := [.registerKinds garden, .identifierType "Moss"]

theorem registerKinds_unites_garden :
    ∃ answers s, Ends (performAll · .new gardenKinds) (answers, s) ∧
      s.Unites garden ["Oak", "Pine", "Oak"] ∧
      ∃ s', Ends (InPlace.resolve · (.nodeUnion ["Oak", "Pine", "Oak"]) s)
        (.ok (.named "TreeId"), s') := by
  have hlast : lastGrammar? gardenKinds (applyAll .empty gardenKinds).1 = some garden := by
    decide +kernel
  have htype : ((applyAll .empty gardenKinds).2.resolve (.nodeUnion ["Oak", "Pine", "Oak"])).map
      (·.1) = .ok (.named "TreeId") := by decide +kernel
  have hrun := performAll_new gardenKinds
  have hunites := registerKinds_unites hrun hlast
    (List.cons_ne_nil "Oak" ["Pine", "Oak"])
  obtain ⟨s', hresolve⟩ := hunites.resolves
  have hsame : (applyAll .empty gardenKinds).2.stored.toRegistry =
      (applyAll .empty gardenKinds).2 := rfl
  rw [hsame, htype] at hresolve
  exact ⟨_, _, hrun, hunites, s', hresolve⟩

end Operation

end TreeFacts
