import Mathlib.Data.List.Perm.Subperm
import Mathlib.Logic.Relation
import TreeFacts.Proofs.Types.Identifier

namespace TreeFacts

namespace Grammar

/-- One kind is the other, or is led to it by its base, the base of that, and so on. -/
def Refines (g : Grammar) : String → String → Prop := Relation.ReflTransGen g.HasBase

/-- A name is that of the root or of a kind. -/
def Declares (g : Grammar) (name : String) : Prop :=
  name = g.root ∨ ∃ kind ∈ g.kinds, kind.name = name

/-- No two kinds have one name, none has the name of the root, and the bases of each lead to the
root. -/
structure Rooted (g : Grammar) : Prop where
  distinct : (g.kinds.map (·.name)).Nodup
  ne_root : ∀ kind ∈ g.kinds, kind.name ≠ g.root
  reaches : ∀ kind ∈ g.kinds, g.Refines kind.name g.root

end Grammar

namespace Hierarchy

variable {h : Hierarchy} {kind above : String} {chain : List String}

theorem Chain.unique {chain' : List String} (hc : h.Chain kind chain) (hc' : h.Chain kind chain') :
    chain = chain' := by
  induction hc generalizing chain' with
  | root =>
    cases hc' with
    | root => rfl
    | base hroot _ _ => exact absurd rfl hroot
  | base hroot hbase _ ih =>
    cases hc' with
    | root => exact absurd rfl hroot
    | base _ hbase' habove =>
      cases hbase.symm.trans hbase'
      rw [ih habove]

theorem Chain.exists_above (hc : h.Chain kind chain) (hroot : kind ≠ h.root) :
    ∃ base above, h.bases.lookup kind = some base ∧ h.Chain base above ∧ chain = kind :: above := by
  cases hc with
  | root => exact absurd rfl hroot
  | base _ hbase hrest => exact ⟨_, _, hbase, hrest, rfl⟩

theorem Chain.root_mem (hc : h.Chain kind chain) : h.root ∈ chain := by
  induction hc with
  | root => exact List.mem_singleton_self _
  | base _ _ _ ih => exact List.mem_cons_of_mem _ ih

/-- The chain of each kind on a chain is the rest of it. -/
theorem Chain.of_append {before rest : List String} (hc : h.Chain kind (before ++ above :: rest)) :
    h.Chain above (above :: rest) := by
  induction before generalizing kind with
  | nil =>
    obtain ⟨_, heq⟩ := hc.exists_cons
    cases heq
    exact hc
  | cons k before ih =>
    rw [List.cons_append] at hc
    generalize htail : before ++ above :: rest = tail at hc
    cases hc with
    | root => exact absurd htail (by simp)
    | base _ _ habove =>
      rw [← htail] at habove
      exact ih habove

theorem Chain.exists_suffix (hc : h.Chain kind chain) (hmem : above ∈ chain) :
    ∃ rest, rest <:+ chain ∧ h.Chain above rest := by
  obtain ⟨before, rest, rfl⟩ := List.append_of_mem hmem
  exact ⟨above :: rest, List.suffix_append _ _, hc.of_append⟩

theorem Chain.nodup (hc : h.Chain kind chain) : chain.Nodup := by
  induction hc with
  | root => simp
  | @base kind base above hroot hbase hrest ih =>
    refine List.nodup_cons.mpr ⟨fun hmem => ?_, ih⟩
    -- The kind's own chain would be part of the one behind it.
    obtain ⟨rest, hsuffix, hc'⟩ := hrest.exists_suffix hmem
    have heq : rest = kind :: above := hc'.unique (.base hroot hbase hrest)
    have hlength := hsuffix.length_le
    rw [heq, List.length_cons] at hlength
    omega

theorem Chain.length_le (hc : h.Chain kind chain) : chain.length ≤ h.bases.length + 1 := by
  have hsub : chain.dropLast ⊆ h.bases.map (·.1) := fun k hk => hc.mem_bases k hk
  have hn : chain.dropLast.Nodup := hc.nodup.sublist (List.dropLast_sublist chain)
  have hlength := (List.subperm_of_subset hn hsub).length_le
  rw [List.length_dropLast, List.length_map] at hlength
  omega

theorem Chain.chainIn_eq (hc : h.Chain kind chain) {fuel : Nat} (hle : chain.length ≤ fuel + 1) :
    h.chainIn fuel kind = .ok chain := by
  induction hc generalizing fuel with
  | root =>
    unfold chainIn
    rw [if_pos rfl]
  | @base kind base above hroot hbase hrest ih =>
    obtain ⟨rest, rfl⟩ := hrest.exists_cons
    rw [List.length_cons, List.length_cons] at hle
    obtain ⟨fuel, rfl⟩ : ∃ n, fuel = n + 1 := ⟨fuel - 1, by omega⟩
    unfold chainIn
    rw [if_neg hroot]
    simp only [hbase]
    rw [ih (by rw [List.length_cons]; omega), map_ok]

/-- The steps allowed are enough for every chain there is. -/
theorem chain_eq_ok_iff : h.chain kind = .ok chain ↔ h.Chain kind chain := by
  constructor
  · exact chain_of_chainIn
  · intro hc
    have hle := hc.length_le
    exact hc.chainIn_eq (by omega)

theorem chain_eq_undeclared (hroot : kind ≠ h.root) (hbase : h.bases.lookup kind = none) :
    h.chain kind = .error (.undeclared kind) := by
  unfold chain chainIn
  rw [if_neg hroot]
  simp only [hbase]

/-- The bases of every kind lead to the root. -/
def Grounded (h : Hierarchy) : Prop := ∀ kind ∈ h.bases.map (·.1), ∃ chain, h.Chain kind chain

theorem Grounded.chain_or_undeclared (hg : h.Grounded) (kind : String) :
    (∃ chain, h.Chain kind chain) ∨ (kind ≠ h.root ∧ h.bases.lookup kind = none) := by
  by_cases hroot : kind = h.root
  · rw [hroot]
    exact Or.inl ⟨_, .root⟩
  · cases hbase : h.bases.lookup kind with
    | none => exact Or.inr ⟨hroot, rfl⟩
    | some base =>
      have hkind : kind ∈ h.bases.map (·.1) :=
        List.mem_map.mpr ⟨(kind, base), Entries.mem_of_lookup hbase, rfl⟩
      exact Or.inl (hg kind hkind)

/-- There are no kinds in the hierarchy that stands for a grammar where there is none. -/
theorem grounded_nil (root : String) : (⟨root, []⟩ : Hierarchy).Grounded := by
  intro kind hkind
  cases hkind

/-- The second kind is the base of the first, which is not the root. -/
def Link (h : Hierarchy) (kind base : String) : Prop :=
  kind ≠ h.root ∧ h.bases.lookup kind = some base

/-- No number of steps leads out of a circle of bases. -/
theorem chainIn_of_circle (hcircle : Relation.TransGen h.Link kind kind) (fuel : Nat) :
    h.chainIn fuel kind = .error .cyclic := by
  induction fuel generalizing kind with
  | zero =>
    obtain ⟨base, hlink, -⟩ := Relation.TransGen.head'_iff.mp hcircle
    unfold chainIn
    rw [if_neg hlink.1]
  | succ fuel ih =>
    obtain ⟨base, hlink, hback⟩ := Relation.TransGen.head'_iff.mp hcircle
    -- The base stands on the same circle.
    have hbase : Relation.TransGen h.Link base base := Relation.TransGen.tail' hback hlink
    unfold chainIn
    rw [if_neg hlink.1]
    simp only [hlink.2]
    rw [ih hbase]
    rfl

/-- What a search along the bases of a kind says about the grammar. -/
def verdict (kind : String) : Except ChainFault (List String) → Except GrammarFault PUnit
  | .ok _ => .ok ⟨⟩
  | .error .cyclic => .error (.cyclicBases kind)
  | .error (.undeclared base) => .error (.undeclaredBase kind base)

theorem verdict_map (kind : String) (result : Except ChainFault (List String))
    (f : List String → List String) : verdict kind (result.map f) = verdict kind result := by
  cases result with
  | ok chain => rfl
  | error fault => rfl

theorem check_eq_verdict (h : Hierarchy) (kind : NodeKind) :
    h.check kind = verdict kind.name (h.chain kind.name) := by
  unfold check verdict
  cases h.chain kind.name with
  | ok chain => rfl
  | error fault =>
    cases fault with
    | cyclic => rfl
    | undeclared base => rfl

theorem collect_of_nodup {root : String} {kinds : List NodeKind} {acc : List (String × String)}
    (hn : (acc.map (·.1) ++ kinds.map (·.name)).Nodup) (hroot : ∀ kind ∈ kinds, kind.name ≠ root) :
    collect root acc kinds = .ok (acc ++ kinds.map fun kind => (kind.name, kind.base)) := by
  induction kinds generalizing acc with
  | nil => rw [collect, List.map_nil, List.append_nil]
  | cons kind kinds ih =>
    have hfresh : acc.lookup kind.name = none := by
      refine Entries.lookup_eq_none_iff.mpr fun hmem => ?_
      exact (List.nodup_append.mp hn).2.2 _ hmem kind.name List.mem_cons_self rfl
    have hn' : ((acc ++ [(kind.name, kind.base)]).map (·.1) ++ kinds.map (·.name)).Nodup := by
      rw [List.map_append, List.map_singleton, List.append_assoc, List.singleton_append]
      exact hn
    rw [collect, if_neg (hroot kind List.mem_cons_self), hfresh, Option.isSome_none,
      if_neg Bool.false_ne_true,
      ih hn' fun other hother => hroot other (List.mem_cons_of_mem _ hother), List.append_assoc, List.singleton_append, List.map_cons]

theorem check_eq_ok_iff {kind : NodeKind} :
    h.check kind = .ok ⟨⟩ ↔ ∃ chain, h.Chain kind.name chain := by
  unfold check
  constructor
  · intro hcheck
    split at hcheck
    next chain hchain => exact ⟨chain, chain_eq_ok_iff.mp hchain⟩
    next => cases hcheck
    next => cases hcheck
  · rintro ⟨chain, hchain⟩
    rw [chain_eq_ok_iff.mpr hchain]

end Hierarchy

namespace Grammar

open Hierarchy

variable {g : Grammar} {kind base above : String} {chain : List String}

theorem lookup_hierarchy_iff (hn : (g.kinds.map (·.name)).Nodup) :
    g.hierarchy.bases.lookup kind = some base ↔ g.HasBase kind base := by
  have hkeys : (g.hierarchy.bases.map (·.1)).Nodup := by
    rw [hierarchy, List.map_map]
    exact hn
  constructor
  · intro hbase
    obtain ⟨k, hk, hpair⟩ := List.mem_map.mp (Entries.mem_of_lookup hbase)
    exact ⟨k, hk, congrArg Prod.fst hpair, congrArg Prod.snd hpair⟩
  · rintro ⟨k, hk, rfl, rfl⟩
    exact Entries.lookup_of_mem hkeys (List.mem_map.mpr ⟨k, hk, rfl⟩)

theorem refines_of_mem_chain (hn : (g.kinds.map (·.name)).Nodup)
    (hc : g.hierarchy.Chain kind chain) (hmem : above ∈ chain) : g.Refines kind above := by
  induction hc with
  | root =>
    rw [List.mem_singleton.mp hmem]
    exact .refl
  | base _ hbase _ ih =>
    rcases List.mem_cons.mp hmem with rfl | hmem
    · exact .refl
    · exact .head ((lookup_hierarchy_iff hn).mp hbase) (ih hmem)

theorem Rooted.chain_base (hg : g.Rooted) (hbase : g.HasBase kind base)
    (hc : g.hierarchy.Chain base chain) : g.hierarchy.Chain kind (kind :: chain) := by
  obtain ⟨k, hk, rfl, -⟩ := id hbase
  exact .base (hg.ne_root k hk) ((lookup_hierarchy_iff hg.distinct).mpr hbase) hc

theorem Rooted.exists_chain (hg : g.Rooted) (hr : g.Refines kind g.root) :
    ∃ chain, g.hierarchy.Chain kind chain := by
  induction hr using Relation.ReflTransGen.head_induction_on with
  | refl => exact ⟨_, .root⟩
  | head hbase _ ih =>
    obtain ⟨chain, hc⟩ := ih
    exact ⟨_, hg.chain_base hbase hc⟩

theorem Rooted.grounded (hg : g.Rooted) : g.hierarchy.Grounded := by
  intro kind hkind
  rw [hierarchy, List.map_map] at hkind
  obtain ⟨k, hk, rfl⟩ := List.mem_map.mp hkind
  exact hg.exists_chain (hg.reaches k hk)

/-- The kinds with a chain are those of the grammar, and the root. -/
theorem Rooted.exists_chain_iff (hg : g.Rooted) :
    (∃ chain, g.hierarchy.Chain kind chain) ↔ g.Declares kind := by
  constructor
  · rintro ⟨chain, hc⟩
    rcases hc.exists_base with hroot | ⟨base, _, hbase, -⟩
    · exact Or.inl hroot
    · obtain ⟨k, hk, hname, -⟩ := (lookup_hierarchy_iff hg.distinct).mp hbase
      exact Or.inr ⟨k, hk, hname⟩
  · rintro (rfl | ⟨k, hk, rfl⟩)
    · exact ⟨_, .root⟩
    · exact hg.exists_chain (hg.reaches k hk)

/-- A chain holds the kinds that its first one refines. -/
theorem Rooted.mem_chain_iff (hg : g.Rooted) (hc : g.hierarchy.Chain kind chain) :
    above ∈ chain ↔ g.Refines kind above := by
  constructor
  · exact refines_of_mem_chain hg.distinct hc
  · intro hr
    induction hr using Relation.ReflTransGen.head_induction_on generalizing chain with
    | refl =>
      obtain ⟨rest, rfl⟩ := hc.exists_cons
      exact List.mem_cons_self
    | head hbase _ ih =>
      obtain ⟨k, hk, rfl, -⟩ := id hbase
      obtain ⟨base, rest, hbase', hrest, rfl⟩ := hc.exists_above (hg.ne_root k hk)
      cases ((lookup_hierarchy_iff hg.distinct).mpr hbase).symm.trans hbase'
      exact List.mem_cons_of_mem _ (ih hrest)

theorem Rooted.refines_antisymm (hg : g.Rooted) (hr : g.Refines kind above)
    (hr' : g.Refines above kind) : kind = above := by
  rcases hr.cases_head with heq | ⟨base, ⟨k, hk, hname, -⟩, -⟩
  · exact heq
  obtain ⟨chain, hc⟩ := hg.exists_chain_iff.mpr (Or.inr ⟨k, hk, hname⟩)
  obtain ⟨rest, hsuffix, habove⟩ := hc.exists_suffix ((hg.mem_chain_iff hc).mpr hr)
  -- Each chain is part of the other, so the two are one chain.
  obtain ⟨rest', hsuffix', hc'⟩ := habove.exists_suffix ((hg.mem_chain_iff habove).mpr hr')
  rw [hc'.unique hc] at hsuffix'
  have heq : rest = chain :=
    hsuffix.eq_of_length (Nat.le_antisymm hsuffix.length_le hsuffix'.length_le)
  obtain ⟨_, rfl⟩ := hc.exists_cons
  obtain ⟨_, rfl⟩ := habove.exists_cons
  exact (List.head_eq_of_cons_eq heq).symm

theorem Rooted.declares_of_refines (hg : g.Rooted) (hkind : g.Declares kind)
    (hr : g.Refines kind above) : g.Declares above := by
  obtain ⟨chain, hc⟩ := hg.exists_chain_iff.mpr hkind
  obtain ⟨rest, -, habove⟩ := hc.exists_suffix ((hg.mem_chain_iff hc).mpr hr)
  exact hg.exists_chain_iff.mp ⟨rest, habove⟩

/-- The grammars with a hierarchy are the rooted ones. -/
theorem ofGrammar_eq_ok_iff {h : Hierarchy} :
    Hierarchy.ofGrammar g = .ok h ↔ h = g.hierarchy ∧ g.Rooted := by
  constructor
  · intro hg
    obtain ⟨rfl, hn, hroot⟩ := ofGrammar_eq_ok hg
    refine ⟨rfl, hn, hroot, fun kind hkind => ?_⟩
    unfold ofGrammar at hg
    obtain ⟨bases, -, hg⟩ := bind_eq_ok.mp hg
    obtain ⟨⟨⟩, hcheck, hg⟩ := bind_eq_ok.mp hg
    cases hg
    obtain ⟨chain, hc⟩ := check_eq_ok_iff.mp (forM_eq_ok.mp hcheck kind hkind)
    exact refines_of_mem_chain hn hc hc.root_mem
  · rintro ⟨rfl, hg⟩
    have hcollect := @collect_of_nodup g.root g.kinds [] hg.distinct hg.ne_root
    have hcheck : g.kinds.forM g.hierarchy.check = .ok ⟨⟩ :=
      forM_eq_ok.mpr fun kind hkind => check_eq_ok_iff.mpr (hg.exists_chain (hg.reaches kind hkind))
    unfold ofGrammar
    rw [hcollect, ok_bind]
    exact bind_eq_ok.mpr ⟨⟨⟩, hcheck, rfl⟩

end Grammar

end TreeFacts
