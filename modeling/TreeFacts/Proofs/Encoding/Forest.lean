import TreeFacts.Encoding.Forest
import TreeFacts.Proofs.Encoding.Typing
import TreeFacts.Proofs.Fact.Set
import TreeFacts.Proofs.Schema.Derive

namespace TreeFacts

/-- Faults of the forest itself: identifiers that clash, nodes of no kind, values that do not fit
their fields. -/
def Error.BlamesForest : Error → Prop
  | identifierConflict _ | unknownNodeKind _ | fieldType _ _ _ => True
  | _ => False

namespace Schema

variable {s : Schema} {e : Enrichment}

/-- Where the values of a field stand, with the types of the schema. -/
def context (s : Schema) (k : KindSchema) (p : FieldProjection) : FieldContext :=
  ⟨s.registry, k.name, p.field⟩

/-- The tuples of a field of a node that can be encoded. -/
def fieldTuples (s : Schema) (k : KindSchema) (n : Node) (p : FieldProjection) : List Tuple :=
  (p.tuples (s.context k p) (.number n.id) (n.value p.field)).toOption.getD []

/-- The facts of a node that can be encoded: what holds of it whatever its fields are, then its
fields in the order of the kind. -/
def kindFacts (s : Schema) (k : KindSchema) (v : Visit) : List Fact :=
  nodeFacts k v ++ k.fields.flatMap fun p => (s.fieldTuples k v.2 p).map (p.relation, ·)

def factsOf (s : Schema) (v : Visit) : List Fact :=
  ((s.kind? v.2.kind).map fun k => s.kindFacts k v).getD []

/-- A node is of a concrete kind, and its fields fit the kind. -/
def Encodes (s : Schema) (n : Node) : Prop :=
  ∃ k, s.kind? n.kind = some k ∧ k.isAbstract = false ∧
    ∀ p ∈ k.fields, p.tuples (s.context k p) (.number n.id) (n.value p.field) =
      .ok (s.fieldTuples k n p)

theorem fieldTuples_eq {k : KindSchema} {n : Node} {p : FieldProjection} {ts : List Tuple}
    (h : p.tuples (s.context k p) (.number n.id) (n.value p.field) = .ok ts) :
    s.fieldTuples k n p = ts := by
  rw [fieldTuples, h]
  rfl

theorem fieldFacts_eq_ok {k : KindSchema} {n : Node} {p : FieldProjection} {out : Encoded}
    (h : s.fieldFacts k n p = .ok out) :
    p.tuples (s.context k p) (.number n.id) (n.value p.field) = .ok (s.fieldTuples k n p) ∧
      out.facts = (s.fieldTuples k n p).map (p.relation, ·) := by
  unfold fieldFacts at h
  obtain ⟨ts, hts, h⟩ := bind_eq_ok.mp h
  cases h
  have heq : s.fieldTuples k n p = ts := fieldTuples_eq hts
  rw [heq]
  exact ⟨hts, rfl⟩

theorem fieldsFacts_eq_ok {k : KindSchema} {n : Node} {ps : List FieldProjection} {out : Encoded}
    (h : s.fieldsFacts k n ps = .ok out) :
    (∀ p ∈ ps, p.tuples (s.context k p) (.number n.id) (n.value p.field) =
      .ok (s.fieldTuples k n p)) ∧
      out.facts = ps.flatMap fun p => (s.fieldTuples k n p).map (p.relation, ·) := by
  induction ps generalizing out with
  | nil =>
    cases h
    simp
  | cons p ps ih =>
    unfold fieldsFacts at h
    obtain ⟨first, hfirst, h⟩ := bind_eq_ok.mp h
    obtain ⟨rest, hrest, h⟩ := bind_eq_ok.mp h
    cases h
    obtain ⟨hp, hfacts⟩ := fieldFacts_eq_ok hfirst
    obtain ⟨hps, hmore⟩ := ih hrest
    constructor
    · intro q hq
      rcases List.mem_cons.mp hq with rfl | hq
      · exact hp
      · exact hps q hq
    · rw [List.flatMap_cons, ← hfacts, ← hmore]
      rfl

theorem visitFacts_eq_ok {v : Visit} {out : Encoded} (h : s.visitFacts v = .ok out) :
    s.Encodes v.2 ∧ out.facts = s.factsOf v := by
  unfold visitFacts at h
  split at h
  next => cases h
  next k hk =>
    obtain ⟨hkind, hconcrete⟩ := Option.filter_eq_some_iff.mp hk
    obtain ⟨fields, hfields, h⟩ := bind_eq_ok.mp h
    cases h
    obtain ⟨hps, hfacts⟩ := fieldsFacts_eq_ok hfields
    refine ⟨⟨k, hkind, by simpa using hconcrete, hps⟩, ?_⟩
    rw [factsOf, hkind, Option.map_some, Option.getD_some, kindFacts, ← hfacts]
    rfl

/-- A walk that is encoded meets every identifier once, and its facts are those of its nodes in
order, those of an enrichment behind each node's own. -/
theorem walkFacts_eq_ok {seen : List NodeId} {visits : List Visit} {out : Encoded}
    (h : s.walkFacts e seen visits = .ok out) :
    (visits.map (·.2.id)).Nodup ∧ (∀ v ∈ visits, 0 ≤ v.2.id ∧ v.2.id ∉ seen) ∧
      (∀ v ∈ visits, s.Encodes v.2) ∧
      out.facts = visits.flatMap fun v => s.factsOf v ++ e.ofNode v.2 := by
  induction visits generalizing seen out with
  | nil =>
    cases h
    simp
  | cons v rest ih =>
    unfold walkFacts at h
    split at h
    next => cases h
    next hfresh =>
      rw [Bool.or_eq_true, not_or, decide_eq_true_eq, Int64.not_lt] at hfresh
      obtain ⟨own, hown, h⟩ := bind_eq_ok.mp h
      obtain ⟨others, hothers, h⟩ := bind_eq_ok.mp h
      cases h
      obtain ⟨hencodes, hfacts⟩ := visitFacts_eq_ok hown
      obtain ⟨hnodup, hids, hall, hmore⟩ := ih hothers
      have hnew : v.2.id ∉ seen := by simpa using hfresh.2
      refine ⟨?_, ?_, ?_, ?_⟩
      -- The rest is walked with this identifier among the seen, so it does not come again.
      · rw [List.map_cons, List.nodup_cons]
        refine ⟨?_, hnodup⟩
        intro hmem
        obtain ⟨w, hw, heq⟩ := List.mem_map.mp hmem
        exact (hids w hw).2 (heq ▸ List.mem_cons_self)
      · intro w hw
        rcases List.mem_cons.mp hw with rfl | hw
        · exact ⟨hfresh.1, hnew⟩
        · exact ⟨(hids w hw).1, fun hmem => (hids w hw).2 (List.mem_cons_of_mem _ hmem)⟩
      · intro w hw
        rcases List.mem_cons.mp hw with rfl | hw
        · exact hencodes
        · exact hall w hw
      · rw [List.flatMap_cons, ← hfacts, ← hmore]
        rfl

theorem fieldsFacts_eq_error {k : KindSchema} {n : Node} {ps : List FieldProjection} {err : Error}
    (hf : ∀ p ∈ ps, p.Fits s.registry) (h : s.fieldsFacts k n ps = .error err) :
    err.BlamesForest := by
  induction ps with
  | nil => cases h
  | cons p ps ih =>
    unfold fieldsFacts at h
    rcases bind_eq_error.mp h with h | ⟨first, -, h⟩
    · unfold fieldFacts at h
      rcases bind_eq_error.mp h with h | ⟨ts, -, h⟩
      · have hp : p.Fits (s.context k p).registry := hf p List.mem_cons_self
        obtain ⟨f, rfl⟩ := FieldProjection.tuples_eq_error hp h
        exact trivial
      · cases h
    · rcases bind_eq_error.mp h with h | ⟨rest, -, h⟩
      · exact ih (fun q hq => hf q (List.mem_cons_of_mem _ hq)) h
      · cases h

/-- A walk that cannot be encoded is itself at fault. -/
theorem walkFacts_eq_error (hf : ∀ k ∈ s.kinds, k.Fits s.registry) {seen : List NodeId}
    {visits : List Visit} {err : Error} (h : s.walkFacts e seen visits = .error err) :
    err.BlamesForest := by
  induction visits generalizing seen with
  | nil => cases h
  | cons v rest ih =>
    unfold walkFacts at h
    split at h
    next =>
      cases h
      exact trivial
    next =>
      rcases bind_eq_error.mp h with h | ⟨own, -, h⟩
      · unfold visitFacts at h
        split at h
        next =>
          cases h
          exact trivial
        next k hk =>
          have hmem : k ∈ s.kinds := List.mem_of_find?_eq_some (Option.filter_eq_some_iff.mp hk).1
          rcases bind_eq_error.mp h with h | ⟨fields, -, h⟩
          · exact fieldsFacts_eq_error (hf k hmem).fields h
          · cases h
      · rcases bind_eq_error.mp h with h | ⟨others, -, h⟩
        · exact ih h
        · cases h

theorem encodeAll_eq_ok {roots : List Node} {fs : FactSet} {warnings : List Warning}
    (h : s.encodeAll e roots = .ok (fs, warnings)) :
    ∃ out, s.walkFacts e [] (walkAll roots) = .ok out ∧
      (FactSet.ofRelations s.inputs).addAll (out.facts ++ e.once) = .ok fs := by
  unfold encodeAll at h
  obtain ⟨out, hout, h⟩ := bind_eq_ok.mp h
  obtain ⟨facts, hfacts, h⟩ := bind_eq_ok.mp h
  cases h
  exact ⟨out, hout, hfacts⟩

end Schema

end TreeFacts
