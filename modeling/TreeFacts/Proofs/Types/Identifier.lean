import TreeFacts.Entries
import TreeFacts.Proofs.Types.Registry

namespace TreeFacts

/-- The kinds of a grammar, each with its base. -/
def Grammar.hierarchy (g : Grammar) : Hierarchy :=
  ⟨g.root, g.kinds.map fun kind => (kind.name, kind.base)⟩

/-- The named base is that of the named kind. -/
def Grammar.HasBase (g : Grammar) (kind base : String) : Prop :=
  ∃ k ∈ g.kinds, k.name = kind ∧ k.base = base

/-- The identifier type of a kind. That of the root is the universal one. -/
def Hierarchy.identifier (h : Hierarchy) (kind : String) : ColumnType :=
  if kind = h.root then .id else .named (kind ++ "Id")

namespace Hierarchy

/-- A kind followed by its base, the base of that, and so on; the root is last. -/
inductive Chain (h : Hierarchy) : String → List String → Prop
  | root : h.Chain h.root [h.root]
  | base {kind base : String} {above : List String} : kind ≠ h.root →
    h.bases.lookup kind = some base → h.Chain base above → h.Chain kind (kind :: above)

theorem Chain.exists_cons {h : Hierarchy} {kind : String} {chain : List String}
    (hc : h.Chain kind chain) : ∃ above, chain = kind :: above := by
  cases hc with
  | root => exact ⟨[], rfl⟩
  | base _ _ _ => exact ⟨_, rfl⟩

theorem Chain.exists_base {h : Hierarchy} {kind : String} {chain : List String}
    (hc : h.Chain kind chain) :
    kind = h.root ∨ ∃ base above, h.bases.lookup kind = some base ∧ h.Chain base above := by
  cases hc with
  | root => exact Or.inl rfl
  | base _ hbase habove => exact Or.inr ⟨_, _, hbase, habove⟩

theorem chain_of_chainIn {h : Hierarchy} {fuel : Nat} {kind : String} {chain : List String}
    (hc : h.chainIn fuel kind = .ok chain) : h.Chain kind chain := by
  induction fuel generalizing kind chain with
  | zero =>
    unfold chainIn at hc
    split at hc
    next hroot =>
      cases hc
      rw [hroot]
      exact .root
    next => cases hc
  | succ fuel ih =>
    unfold chainIn at hc
    split at hc
    next hroot =>
      cases hc
      rw [hroot]
      exact .root
    next hroot =>
      simp only at hc
      split at hc
      next => cases hc
      next base hbase =>
        obtain ⟨above, habove, rfl⟩ := map_eq_ok.mp hc
        exact .base hroot hbase (ih habove)

theorem Chain.mem_bases {h : Hierarchy} {kind : String} {chain : List String}
    (hc : h.Chain kind chain) : ∀ k ∈ chain.dropLast, k ∈ h.bases.map (·.1) := by
  induction hc with
  | root => simp
  | @base kind base above _ hbase hc ih =>
    have hkind : kind ∈ h.bases.map (·.1) :=
      List.mem_map.mpr ⟨(kind, base), Entries.mem_of_lookup hbase, rfl⟩
    obtain ⟨rest, rfl⟩ := hc.exists_cons
    intro k hk
    rw [List.dropLast_cons_of_ne_nil (by simp)] at hk
    rcases List.mem_cons.mp hk with rfl | hk
    · exact hkind
    · exact ih k hk

theorem collect_eq_ok {root : String} {kinds : List NodeKind} {acc bases : List (String × String)}
    (h : collect root acc kinds = .ok bases) :
    bases = acc ++ kinds.map fun kind => (kind.name, kind.base) := by
  induction kinds generalizing acc with
  | nil =>
    cases h
    simp
  | cons kind rest ih =>
    unfold collect at h
    split at h
    next => cases h
    next =>
      split at h
      next => cases h
      next =>
        rw [ih h, List.map_cons, List.append_assoc]
        rfl

theorem collect_ne_root {root : String} {kinds : List NodeKind} {acc bases : List (String × String)}
    (h : collect root acc kinds = .ok bases) : ∀ kind ∈ kinds, kind.name ≠ root := by
  induction kinds generalizing acc with
  | nil => simp
  | cons kind rest ih =>
    unfold collect at h
    split at h
    next => cases h
    next hroot =>
      split at h
      next => cases h
      next =>
        intro other hother
        rcases List.mem_cons.mp hother with rfl | hother
        · exact hroot
        · exact ih h other hother

theorem collect_nodup {root : String} {kinds : List NodeKind} {acc bases : List (String × String)}
    (hn : (acc.map (·.1)).Nodup) (h : collect root acc kinds = .ok bases) :
    (bases.map (·.1)).Nodup := by
  induction kinds generalizing acc with
  | nil =>
    cases h
    exact hn
  | cons kind rest ih =>
    unfold collect at h
    split at h
    next => cases h
    next =>
      split at h
      next => cases h
      next hfresh =>
        have hnew : kind.name ∉ acc.map (·.1) :=
          Entries.lookup_eq_none_iff.mp (Option.not_isSome_iff_eq_none.mp hfresh)
        refine ih ?_ h
        rw [List.map_append, List.nodup_append]
        refine ⟨hn, by simp, ?_⟩
        intro a ha b hb hab
        have hkind : b = kind.name := by simpa using hb
        rw [hab, hkind] at ha
        exact hnew ha

theorem ofGrammar_eq_ok {g : Grammar} {h : Hierarchy} (hg : ofGrammar g = .ok h) :
    h = ⟨g.root, g.kinds.map fun kind => (kind.name, kind.base)⟩ ∧
      (g.kinds.map (·.name)).Nodup ∧ ∀ kind ∈ g.kinds, kind.name ≠ g.root := by
  unfold ofGrammar at hg
  obtain ⟨bases, hbases, hg⟩ := bind_eq_ok.mp hg
  obtain ⟨-, -, hg⟩ := bind_eq_ok.mp hg
  cases hg
  have hn := collect_nodup (by simp) hbases
  have hroot := collect_ne_root hbases
  have heq := collect_eq_ok hbases
  rw [List.nil_append] at heq
  subst heq
  refine ⟨rfl, ?_, hroot⟩
  rwa [List.map_map] at hn

end Hierarchy

namespace Registry

variable {r r' : Registry}

/-- Every identifier type of a kind that is defined is one of identifiers. -/
def Identifies (r : Registry) : Prop :=
  ∀ h, r.hierarchy = some h → ∀ kind ∈ h.bases.map (·.1),
    (r.get? (kind ++ "Id")).isSome → r.classify (.named (kind ++ "Id")) = .ok .nodeId

theorem Identifies.of_get?_eq (hi : r.Identifies) (he : r.Extends r')
    (hget : ∀ h, r.hierarchy = some h → ∀ kind ∈ h.bases.map (·.1),
      r'.get? (kind ++ "Id") = r.get? (kind ++ "Id")) : r'.Identifies := by
  intro h hh kind hkind hsome
  have hh' : r.hierarchy = some h := he.hierarchy ▸ hh
  rw [hget h hh' kind hkind] at hsome
  exact he.classify_eq (hi h hh' kind hkind hsome)

theorem Identifies.push_subtype (hi : r.Identifies) {kind : String} {base : ColumnType}
    (hnew : r.get? (kind ++ "Id") = none) (hbase : r.classify base = .ok .nodeId) :
    (r.push (.subtype (kind ++ "Id") base)).Identifies ∧
      (r.push (.subtype (kind ++ "Id") base)).classify (.named (kind ++ "Id")) = .ok .nodeId := by
  obtain ⟨hbool, hid⟩ := idName_ne_builtin kind
  have hclass := classify_push_subtype hnew hbool hid hbase
  refine ⟨?_, hclass⟩
  intro h hh other hother hsome
  by_cases hsame : kind ++ "Id" = other ++ "Id"
  · rw [← hsame]
    exact hclass
  · have hget : (r.push (.subtype (kind ++ "Id") base)).get? (other ++ "Id") =
        r.get? (other ++ "Id") := get?_push_of_ne hsame
    rw [hget] at hsome
    exact (extends_push r _).classify_eq (hi h hh other hother hsome)

theorem internChain_extends (r : Registry) (chain : List String) :
    r.Extends (r.internChain chain).2 := by
  induction chain with
  | nil => exact Extends.refl r
  | cons kind chain ih =>
    cases chain with
    | nil => exact Extends.refl r
    | cons above rest =>
      unfold internChain
      simp only
      split
      next => exact ih
      next => exact ih.trans (extends_push _ _)

/-- The identifier types along a chain are types of identifiers, each a subtype of the next. -/
theorem internChain_identifies (hi : r.Identifies) {h : Hierarchy} (hh : r.hierarchy = some h)
    {chain : List String} (hc : ∀ k ∈ chain.dropLast, k ∈ h.bases.map (·.1)) :
    (r.internChain chain).2.Identifies ∧
      (r.internChain chain).2.classify (r.internChain chain).1 = .ok .nodeId := by
  induction chain with
  | nil => exact ⟨hi, rfl⟩
  | cons kind chain ih =>
    cases chain with
    | nil => exact ⟨hi, rfl⟩
    | cons above rest =>
      rw [List.dropLast_cons_of_ne_nil (by simp)] at hc
      obtain ⟨hi', hbase⟩ := ih fun k hk => hc k (List.mem_cons_of_mem _ hk)
      have he := internChain_extends r (above :: rest)
      unfold internChain
      simp only
      -- A type that is there already was made for the same kind.
      split
      next hsome =>
        refine ⟨hi', hi' h (he.hierarchy.trans hh) kind (hc kind List.mem_cons_self) hsome⟩
      next hnone =>
        exact hi'.push_subtype (Option.not_isSome_iff_eq_none.mp hnone) hbase

theorem identifierType_eq_ok {kind : String} {type : ColumnType}
    (h : r.identifierType kind = .ok (type, r')) : ∃ hierarchy chain,
      r.hierarchy = some hierarchy ∧ hierarchy.Chain kind chain ∧ r.internChain chain = (type, r') := by
  unfold identifierType at h
  split at h
  next => cases h
  next hierarchy hh =>
    obtain ⟨chain, hchain, heq⟩ := map_eq_ok.mp h
    unfold ancestors at hchain
    rw [hh, Option.getD_some] at hchain
    split at hchain
    next hfound =>
      cases hchain
      exact ⟨hierarchy, _, hh, Hierarchy.chain_of_chainIn hfound, heq⟩
    next => cases hchain

theorem identifierType_extends {kind : String} {type : ColumnType}
    (h : r.identifierType kind = .ok (type, r')) : r.Extends r' := by
  obtain ⟨_, chain, -, -, heq⟩ := identifierType_eq_ok h
  have he := internChain_extends r chain
  rwa [heq] at he

theorem identifierType_identifies (hi : r.Identifies) {kind : String} {type : ColumnType}
    (h : r.identifierType kind = .ok (type, r')) :
    r'.Identifies ∧ r'.classify type = .ok .nodeId := by
  obtain ⟨_, _, hh, hchain, heq⟩ := identifierType_eq_ok h
  have hspec := internChain_identifies hi hh hchain.mem_bases
  rwa [heq] at hspec

theorem commonIdentifierType_eq_ok {kinds : List String} {type : ColumnType}
    (h : r.commonIdentifierType kinds = .ok (type, r')) :
    (∃ kind, r.identifierType kind = .ok (type, r')) ∨ (type = .id ∧ r' = r) := by
  unfold commonIdentifierType at h
  obtain ⟨chains, -, h⟩ := bind_eq_ok.mp h
  split at h
  next kind _ => exact Or.inl ⟨kind, h⟩
  next =>
    cases h
    exact Or.inr ⟨rfl, rfl⟩

theorem listType_identifies (hi : r.Identifies) {element type : ColumnType}
    (h : r.listType element = .ok (type, r')) : r'.Identifies :=
  hi.of_get?_eq (listType_extends h) fun _ _ kind _ =>
    get?_listType_of_ne h (listName_ne_idName element.name kind)

end Registry

end TreeFacts
