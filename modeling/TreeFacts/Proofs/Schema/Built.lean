import TreeFacts.Proofs.Schema.Derive
import TreeFacts.Proofs.Schema.Growth

namespace TreeFacts

namespace Registry

variable {r r' : Registry}

/-- A registry that the operations lead to from the empty one. What they do is to define types under
names that are still free, and to take over the kinds of a grammar. -/
inductive Built : Registry → Prop
  | empty : Built .empty
  | push {r : Registry} {d : TypeDef} : Built r → r.get? d.name = none → Built (r.push d)
  | kinds {r : Registry} (h : Option Hierarchy) : Built r → Built { r with hierarchy := h }

theorem Built.nodup (hb : r.Built) : (r.defs.map (·.name)).Nodup := by
  induction hb with
  | empty => decide
  | @push r d _ hfree ih =>
    have hnew : d.name ∉ r.defs.map (·.name) := by
      intro hmem
      obtain ⟨other, hother, hname⟩ := List.mem_map.mp hmem
      have hne := List.find?_eq_none.mp hfree other hother
      exact hne (beq_iff_eq.mpr hname)
    rw [Registry.push, List.map_append, List.nodup_append]
    refine ⟨ih, by simp, ?_⟩
    intro a ha b hb heq
    have hd : b = d.name := by simpa using hb
    rw [heq, hd] at ha
    exact hnew ha
  | kinds _ _ ih => exact ih

theorem Built.get?_of_mem (hb : r.Built) {d : TypeDef} (hd : d ∈ r.defs) :
    r.get? d.name = some d :=
  (find?_name_eq_some hb.nodup).mpr ⟨hd, rfl⟩

/-- Definitions that a registry holds may be made again, and change nothing. -/
theorem Built.defineAll_of_subset (hb : r.Built) {defs : List TypeDef} (hsub : defs ⊆ r.defs) :
    r.defineAll defs = .ok r := by
  induction defs with
  | nil => rfl
  | cons d defs ih =>
    obtain ⟨hd, hrest⟩ := List.cons_subset.mp hsub
    have hsame : r.define d = .ok r := define_eq_ok.mpr (Or.inl ⟨hb.get?_of_mem hd, rfl⟩)
    rw [defineAll, List.foldlM_cons, hsame]
    exact ih hrest

theorem Built.define (hb : r.Built) {d : TypeDef} (h : r.define d = .ok r') : r'.Built := by
  rcases define_eq_ok.mp h with ⟨-, rfl⟩ | ⟨hfree, rfl⟩
  · exact hb
  · exact hb.push hfree

theorem Built.defineAll (hb : r.Built) {defs : List TypeDef} (h : r.defineAll defs = .ok r') :
    r'.Built := by
  induction defs generalizing r with
  | nil =>
    cases h
    exact hb
  | cons d defs ih =>
    unfold Registry.defineAll at h
    rw [List.foldlM_cons] at h
    obtain ⟨r₁, hfirst, hrest⟩ := bind_eq_ok.mp h
    exact ih (hb.define hfirst) hrest

theorem Built.internChain (hb : r.Built) (chain : List String) : (r.internChain chain).2.Built := by
  induction chain with
  | nil => exact hb
  | cons kind chain ih =>
    cases chain with
    | nil => exact hb
    | cons above rest =>
      unfold Registry.internChain
      simp only
      split
      next => exact ih
      next hnone => exact ih.push (Option.not_isSome_iff_eq_none.mp hnone)

theorem Built.grows (hb : r.Built) (h : r.Grows r') : r'.Built := by
  refine h.preserves (fun hask hb => ?_) hb
  cases hask with
  | identifier h =>
    obtain ⟨_, chain, -, -, heq⟩ := identifierType_eq_ok h
    have hchain := hb.internChain chain
    rwa [heq] at hchain
  | list h =>
    unfold listType at h
    obtain ⟨_, hdefine, heq⟩ := map_eq_ok.mp h
    cases heq
    exact hb.define hdefine

theorem Built.registerKinds (hb : r.Built) {g : Grammar} (h : r.registerKinds g = .ok r') :
    r'.Built := by
  rw [(registerKinds_eq_ok h).1]
  exact hb.kinds _

end Registry

/-- An enrichment uses nothing but the operations of the registry to define its types. -/
def Enrichment.Builds (e : Enrichment) : Prop :=
  ∀ {r r' : Registry} {relations : List Relation},
    r.Built → e.declare r = .ok (relations, r') → r'.Built

theorem Enrichment.none_builds : none.Builds := by
  intro r r' relations hb h
  cases h
  exact hb

theorem Schema.derive_built {g : Grammar} {skip : SkipSet} {e : Enrichment} {s : Schema}
    (he : e.Builds) (h : derive g skip e = .ok s) : s.registry.Built := by
  obtain ⟨r₀, r₁, r₂, derived, henums, hr₁, hkinds, hdeclared, -⟩ := derive_eq_ok h
  have hb₀ : r₀.Built := by
    have hdefs : Registry.empty.defineAll (g.enums.map fun name => .subtype name .symbol) = .ok r₀ := by
      rw [Registry.defineAll, List.foldlM_map]
      exact henums
    exact Registry.Built.empty.defineAll hdefs
  have hb₂ := (hb₀.registerKinds hr₁).grows (KindSchema.deriveAll_grows hkinds).1
  exact he hb₂ hdeclared

end TreeFacts
