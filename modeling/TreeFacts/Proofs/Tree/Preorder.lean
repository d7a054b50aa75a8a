import Mathlib.Data.List.Forall2
import Mathlib.Data.List.Lex
import TreeFacts.Proofs.Tree.Loaded
import TreeFacts.Proofs.Tree.Walk

namespace TreeFacts

namespace Value

/-- A way from a value to a part of it. -/
inductive Step where
  | key (name : String)
  | item (i : Nat)

/-- Keys are ordered as text, items as they stand. -/
def Step.Before : Step → Step → Prop
  | .key a, .key b => a < b
  | .item i, .item j => i < j
  | .key _, .item _ | .item _, .key _ => False

instance : LT Step := ⟨Step.Before⟩

theorem Step.lt_irrefl : ∀ s : Step, ¬s < s
  | .key a => String.lt_irrefl a
  | .item i => Nat.lt_irrefl i

/-- Steps from a value downwards. -/
abbrev Path := List Step

theorem Path.lt_irrefl (p : Path) : ¬p < p := by
  induction p with
  | nil => exact fun h => nomatch h
  | cons s p ih =>
    intro h
    cases h with
    | rel hs => exact s.lt_irrefl hs
    | cons hp => exact ih hp

theorem Path.lt_of_above {p q : Path} (h : q <+: p) (hne : q ≠ p) : q < p := by
  induction q generalizing p with
  | nil =>
    cases p with
    | nil => exact absurd rfl hne
    | cons s p => exact List.Lex.nil
  | cons s q ih =>
    obtain ⟨p, rfl, hp⟩ := List.cons_prefix_iff.mp h
    exact List.Lex.cons (ih hp fun heq => hne (congrArg _ heq))

/-- Entries as parts. -/
def keyed (entries : List (String × Value)) : List (Step × Value) :=
  entries.map fun e => (.key e.1, e.2)

/-- The parts of a value, for a node what its fields hold. -/
def parts : Value → List (Step × Value)
  | .node n => keyed n.fields
  | .list items => items.mapIdx fun i v => (.item i, v)
  | .map entries => keyed entries
  | .null | .bool _ | .int _ | .text _ => []

def part? : Value → Step → Option Value
  | .node n, .key name => n.fields.lookup name
  | .map entries, .key name => entries.lookup name
  | .list items, .item i => items[i]?
  | _, _ => none

/-- What a path leads to. -/
def at? (v : Value) : Path → Option Value
  | [] => some v
  | s :: p => (v.part? s).bind fun w => w.at? p

def HasNode (v : Value) (p : Path) : Prop := ∃ n, v.at? p = some (.node n)

/-- One node stands within another, with none between. -/
structure Encloses (v : Value) (q p : Path) : Prop where
  above : q <+: p
  ne : q ≠ p
  outer : v.HasNode q
  inner : v.HasNode p
  nearest : ∀ r, q <+: r → r <+: p → v.HasNode r → r = q ∨ r = p

/-- A node that stands within no other. -/
structure Outermost (v : Value) (p : Path) : Prop where
  node : v.HasNode p
  first : ∀ q, q <+: p → v.HasNode q → q = p

/-- The nearest node that the end of a path stands within, which is the one outside if the path
passes none. -/
def StandsIn (v : Value) (outside : Option Node) (p : Path) (parent : Option Node) : Prop :=
  (∃ q m, v.Encloses q p ∧ v.at? q = some (.node m) ∧ parent = some m) ∨
    v.Outermost p ∧ parent = outside

/-- Every path with `Q` stands for one item, and the items come in the order of the paths. -/
def ListedBy {α : Type} (Q : Path → Prop) (R : Path → α → Prop) (as : List α) : Prop :=
  ∃ paths : List Path, paths.Nodup ∧ paths.Pairwise (· < ·) ∧ (∀ p, p ∈ paths ↔ Q p) ∧
    List.Forall₂ R paths as

def Ordered (v : Value) : Prop := v.Holds Entries.Ascending Entries.Ascending

section Parts

variable {v w : Value} {s : Step} {p q : Path}

theorem mem_keyed {entries : List (String × Value)} :
    (s, w) ∈ keyed entries ↔ ∃ name, s = .key name ∧ (name, w) ∈ entries := by
  unfold keyed
  constructor
  · intro h
    obtain ⟨⟨name, w⟩, he, heq⟩ := List.mem_map.mp h
    cases heq
    exact ⟨name, rfl, he⟩
  · rintro ⟨name, rfl, he⟩
    exact List.mem_map.mpr ⟨(name, w), he, rfl⟩

theorem mem_indexed {items : List Value} :
    (s, w) ∈ items.mapIdx (fun i v => (Step.item i, v)) ↔
      ∃ i, s = .item i ∧ items[i]? = some w := by
  constructor
  · intro h
    obtain ⟨i, hi, heq⟩ := List.mem_mapIdx.mp h
    cases heq
    exact ⟨i, rfl, List.getElem?_eq_getElem hi⟩
  · rintro ⟨i, rfl, h⟩
    obtain ⟨hi, rfl⟩ := List.getElem?_eq_some_iff.mp h
    exact List.mem_mapIdx.mpr ⟨i, hi, rfl⟩

theorem sizeOf_lt_of_mem_parts (h : (s, w) ∈ v.parts) : sizeOf w < sizeOf v := by
  have hentries : ∀ entries : List (String × Value), (s, w) ∈ keyed entries →
      sizeOf w < sizeOf entries := by
    intro entries hmem
    obtain ⟨name, -, he⟩ := mem_keyed.mp hmem
    have hlt := List.sizeOf_lt_of_mem he
    simp only [Prod.mk.sizeOf_spec] at hlt
    omega
  cases v with
  | node n =>
    obtain ⟨id, src, kind, fields⟩ := n
    have hlt := hentries fields h
    simp only [node.sizeOf_spec, Node.mk.sizeOf_spec]
    omega
  | list items =>
    obtain ⟨i, -, hi⟩ := mem_indexed.mp h
    have hlt := List.sizeOf_lt_of_mem (List.mem_of_getElem? hi)
    simp only [list.sizeOf_spec]
    omega
  | map entries =>
    have hlt := hentries entries h
    simp only [map.sizeOf_spec]
    omega
  | null | bool b | int n | text t => cases h

/-- What holds of a value whenever it holds of its parts holds of every value. -/
theorem parts_induction {motive : Value → Prop}
    (h : ∀ v, (∀ part ∈ v.parts, motive part.2) → motive v) (v : Value) : motive v :=
  h v fun part _hpart => parts_induction h part.2
  termination_by sizeOf v
  decreasing_by exact sizeOf_lt_of_mem_parts _hpart

theorem lookup_iff_keyed {entries : Entries Value} (h : Entries.Ascending entries) :
    (s, w) ∈ keyed entries ↔ ∃ name, s = .key name ∧ entries.lookup name = some w := by
  rw [mem_keyed]
  constructor
  · rintro ⟨name, hs, he⟩
    exact ⟨name, hs, Entries.lookup_of_mem h.nodup_keys he⟩
  · rintro ⟨name, hs, he⟩
    exact ⟨name, hs, Entries.mem_of_lookup he⟩

theorem pairwise_keyed {entries : Entries Value} (h : Entries.Ascending entries) :
    (keyed entries).Pairwise fun a b => a.1 < b.1 := List.pairwise_map.mpr h

theorem Ordered.fields {n : Node} (h : (Value.node n).Ordered) :
    Entries.Ascending n.fields ∧ HoldsInEntries Entries.Ascending Entries.Ascending n.fields := by
  cases n
  exact h

theorem Ordered.pairwise_parts (h : v.Ordered) : v.parts.Pairwise fun a b => a.1 < b.1 := by
  cases v with
  | node n => exact pairwise_keyed h.fields.1
  | list items =>
    refine List.pairwise_iff_getElem.mpr fun i j hi hj hij => ?_
    simp only [parts, List.getElem_mapIdx]
    exact hij
  | map entries => exact pairwise_keyed h.1
  | null | bool b | int n | text t => exact List.Pairwise.nil

theorem Ordered.part?_eq_some (h : v.Ordered) : v.part? s = some w ↔ (s, w) ∈ v.parts := by
  cases v with
  | node n =>
    rw [parts, lookup_iff_keyed h.fields.1]
    cases s <;> simp [part?]
  | list items =>
    rw [parts, mem_indexed]
    cases s <;> simp [part?]
  | map entries =>
    rw [parts, lookup_iff_keyed h.1]
    cases s <;> simp [part?]
  | null | bool b | int n | text t => simp [part?, parts]

theorem Ordered.of_mem_parts (h : v.Ordered) (hw : (s, w) ∈ v.parts) : w.Ordered := by
  cases v with
  | node n =>
    obtain ⟨name, -, he⟩ := mem_keyed.mp hw
    exact holdsInEntries_iff.mp h.fields.2 _ he
  | list items =>
    obtain ⟨i, -, hi⟩ := mem_indexed.mp hw
    exact holdsInList_iff.mp h w (List.mem_of_getElem? hi)
  | map entries =>
    obtain ⟨name, -, he⟩ := mem_keyed.mp hw
    exact holdsInEntries_iff.mp h.2 _ he
  | null | bool b | int n | text t => cases hw

theorem Ordered.at?_cons (h : v.Ordered) (hw : (s, w) ∈ v.parts) : v.at? (s :: p) = w.at? p := by
  rw [at?, h.part?_eq_some.mpr hw, Option.bind_some]

theorem Ordered.hasNode_cons_iff (h : v.Ordered) (hw : (s, w) ∈ v.parts) :
    v.HasNode (s :: p) ↔ w.HasNode p := by
  simp only [HasNode, h.at?_cons hw]

theorem Ordered.mem_parts_of_hasNode (h : v.Ordered) (hp : v.HasNode (s :: p)) :
    ∃ w, (s, w) ∈ v.parts ∧ w.HasNode p := by
  obtain ⟨n, hn⟩ := hp
  obtain ⟨w, hw, hp⟩ := Option.bind_eq_some_iff.mp hn
  exact ⟨w, h.part?_eq_some.mp hw, n, hp⟩

theorem hasNode_nil_iff : v.HasNode [] ↔ ∃ n, v = .node n := by
  simp only [HasNode, at?, Option.some.injEq]

theorem Encloses.lt (h : v.Encloses q p) : q < p := Path.lt_of_above h.above h.ne

theorem Ordered.encloses_cons (h : v.Ordered) (hw : (s, w) ∈ v.parts) (he : w.Encloses q p) :
    v.Encloses (s :: q) (s :: p) where
  above := List.cons_prefix_cons.mpr ⟨rfl, he.above⟩
  ne := fun heq => he.ne (List.cons.inj heq).2
  outer := (h.hasNode_cons_iff hw).mpr he.outer
  inner := (h.hasNode_cons_iff hw).mpr he.inner
  nearest := by
    intro r hqr hrp hr
    obtain ⟨r, rfl, hbelow⟩ := List.cons_prefix_iff.mp hqr
    have hbetween := he.nearest r hbelow (List.cons_prefix_cons.mp hrp).2
      ((h.hasNode_cons_iff hw).mp hr)
    exact hbetween.imp (congrArg _) (congrArg _)

/-- A node encloses what is outermost in its parts. -/
theorem Ordered.encloses_nil_iff (h : v.Ordered) (hv : v.HasNode []) (hw : (s, w) ∈ v.parts) :
    v.Encloses [] (s :: p) ↔ w.Outermost p := by
  constructor
  · intro he
    refine ⟨(h.hasNode_cons_iff hw).mp he.inner, fun q hq hnode => ?_⟩
    have hbetween := he.nearest (s :: q) List.nil_prefix (List.cons_prefix_cons.mpr ⟨rfl, hq⟩)
      ((h.hasNode_cons_iff hw).mpr hnode)
    rcases hbetween with heq | heq
    · cases heq
    · exact (List.cons.inj heq).2
  · intro ho
    have hinner : v.HasNode (s :: p) := (h.hasNode_cons_iff hw).mpr ho.node
    refine ⟨List.nil_prefix, (List.cons_ne_nil s p).symm, hv, hinner, ?_⟩
    intro r _ hr hnode
    cases r with
    | nil => exact Or.inl rfl
    | cons s' r =>
      obtain ⟨rfl, habove⟩ := List.cons_prefix_cons.mp hr
      exact Or.inr (congrArg _ (ho.first r habove ((h.hasNode_cons_iff hw).mp hnode)))

theorem Ordered.outermost_cons_iff (h : v.Ordered) (hv : ¬v.HasNode []) (hw : (s, w) ∈ v.parts) :
    v.Outermost (s :: p) ↔ w.Outermost p := by
  constructor
  · intro ho
    refine ⟨(h.hasNode_cons_iff hw).mp ho.node, fun q hq hnode => ?_⟩
    have heq := ho.first (s :: q) (List.cons_prefix_cons.mpr ⟨rfl, hq⟩)
      ((h.hasNode_cons_iff hw).mpr hnode)
    exact (List.cons.inj heq).2
  · intro ho
    refine ⟨(h.hasNode_cons_iff hw).mpr ho.node, fun q hq hnode => ?_⟩
    cases q with
    | nil => exact absurd hnode hv
    | cons s' q =>
      obtain ⟨rfl, habove⟩ := List.cons_prefix_cons.mp hq
      exact congrArg _ (ho.first q habove ((h.hasNode_cons_iff hw).mp hnode))

theorem Ordered.standsIn_of_part (h : v.Ordered) (hv : ¬v.HasNode []) (hw : (s, w) ∈ v.parts)
    {outside parent : Option Node} (hp : w.StandsIn outside p parent) :
    v.StandsIn outside (s :: p) parent := by
  rcases hp with ⟨q, m, he, hm, hparent⟩ | ⟨ho, hparent⟩
  · exact Or.inl ⟨s :: q, m, h.encloses_cons hw he, (h.at?_cons hw).trans hm, hparent⟩
  · exact Or.inr ⟨(h.outermost_cons_iff hv hw).mpr ho, hparent⟩

theorem standsIn_of_field {n : Node} (h : (Value.node n).Ordered)
    (hw : (s, w) ∈ (Value.node n).parts) {outside parent : Option Node}
    (hp : w.StandsIn (some n) p parent) :
    (Value.node n).StandsIn outside (s :: p) parent := by
  refine Or.inl ?_
  rcases hp with ⟨q, m, he, hm, hparent⟩ | ⟨ho, hparent⟩
  · exact ⟨s :: q, m, h.encloses_cons hw he, (h.at?_cons hw).trans hm, hparent⟩
  · exact ⟨[], n, (h.encloses_nil_iff ⟨n, rfl⟩ hw).mpr ho, rfl, hparent⟩

end Parts

section Listed

variable {α : Type} {Q : Path → Prop} {R : Path → α → Prop} {as : List α} {v : Value}

theorem ListedBy.imp {P : Path → Prop} {S : Path → α → Prop} (h : ListedBy Q R as)
    (hQ : ∀ p, Q p ↔ P p) (hR : ∀ p a, R p a → S p a) : ListedBy P S as := by
  obtain ⟨paths, hnodup, hlt, hmem, hmatch⟩ := h
  exact ⟨paths, hnodup, hlt, fun p => (hmem p).trans (hQ p), hmatch.imp hR⟩

theorem listedBy_of_lt (paths : List Path) (hlt : paths.Pairwise (· < ·))
    (hmem : ∀ p, p ∈ paths ↔ Q p) (hmatch : List.Forall₂ R paths as) : ListedBy Q R as := by
  refine ⟨paths, hlt.imp fun hpq heq => ?_, hlt, hmem, hmatch⟩
  exact Path.lt_irrefl _ (heq ▸ hpq)

theorem ListedBy.cons {a : α} (h : ListedBy Q R as) (hQ : ∀ p, Q p → p ≠ []) (hR : R [] a) :
    ListedBy (fun p => p = [] ∨ Q p) R (a :: as) := by
  obtain ⟨paths, -, hlt, hmem, hmatch⟩ := h
  refine listedBy_of_lt ([] :: paths) (List.pairwise_cons.mpr ⟨fun p hp => ?_, hlt⟩) (fun p => ?_)
    (List.Forall₂.cons hR hmatch)
  · exact Path.lt_of_above List.nil_prefix (hQ p ((hmem p).mp hp)).symm
  · rw [List.mem_cons, hmem]

/-- What the parts list one after the other is listed by the paths through them. -/
theorem listedBy_flatMap {parts : List (Step × Value)}
    (hsteps : parts.Pairwise fun a b => a.1 < b.1)
    {f : Value → List α} {Q : Value → Path → Prop} {R : Value → Path → α → Prop}
    (h : ∀ part ∈ parts, ListedBy (Q part.2) (R part.2) (f part.2)) :
    ListedBy (fun p => ∃ part ∈ parts, ∃ q, p = part.1 :: q ∧ Q part.2 q)
      (fun p a => ∃ part ∈ parts, ∃ q, p = part.1 :: q ∧ R part.2 q a)
      (parts.flatMap fun part => f part.2) := by
  induction parts with
  | nil => exact listedBy_of_lt [] List.Pairwise.nil (by simp) List.Forall₂.nil
  | cons part parts ih =>
    obtain ⟨hfirst, hsteps⟩ := List.pairwise_cons.mp hsteps
    obtain ⟨hpart, hparts⟩ := List.forall_mem_cons.mp h
    obtain ⟨paths, -, hlt, hmem, hmatch⟩ := hpart
    obtain ⟨others, -, hltOthers, hmemOthers, hmatchOthers⟩ := ih hsteps hparts
    refine listedBy_of_lt (paths.map (part.1 :: ·) ++ others) ?_ (fun p => ?_) ?_
    · refine List.pairwise_append.mpr
        ⟨List.pairwise_map.mpr (hlt.imp List.Lex.cons), hltOthers, ?_⟩
      intro p hp p' hp'
      obtain ⟨q, -, rfl⟩ := List.mem_map.mp hp
      obtain ⟨other, hother, q', rfl, -⟩ := (hmemOthers p').mp hp'
      exact List.Lex.rel (hfirst other hother)
    · rw [List.mem_append, hmemOthers, List.exists_mem_cons_iff]
      refine or_congr ?_ Iff.rfl
      constructor
      · intro hp
        obtain ⟨q, hq, rfl⟩ := List.mem_map.mp hp
        exact ⟨q, rfl, (hmem q).mp hq⟩
      · rintro ⟨q, rfl, hq⟩
        exact List.mem_map.mpr ⟨q, (hmem q).mpr hq, rfl⟩
    · rw [List.flatMap_cons]
      refine List.rel_append ?_ ?_
      · refine List.forall₂_map_left_iff.mpr (hmatch.imp fun q a hq => ?_)
        exact ⟨part, List.mem_cons_self, q, rfl, hq⟩
      · refine hmatchOthers.imp fun p a hp => ?_
        obtain ⟨other, hother, hp⟩ := hp
        exact ⟨other, List.mem_cons_of_mem _ hother, hp⟩

/-- Nodes below a value are listed part by part. -/
theorem Ordered.listedBy (h : v.Ordered) {f : Value → List α} {Q : Value → Path → Prop}
    {R : Value → Path → α → Prop} {P : Path → Prop} {S : Path → α → Prop}
    (hlisted : ∀ part ∈ v.parts, ListedBy (Q part.2) (R part.2) (f part.2))
    (hnode : ∀ p, P p → p ≠ [] ∧ v.HasNode p)
    (hQ : ∀ s w p, (s, w) ∈ v.parts → (P (s :: p) ↔ Q w p))
    (hR : ∀ s w p a, (s, w) ∈ v.parts → R w p a → S (s :: p) a) :
    ListedBy P S (v.parts.flatMap fun part => f part.2) := by
  refine (listedBy_flatMap h.pairwise_parts hlisted).imp (fun p => ?_) fun p a hp => ?_
  · constructor
    · rintro ⟨part, hpart, q, rfl, hq⟩
      exact (hQ part.1 part.2 q hpart).mpr hq
    · intro hp
      obtain ⟨hne, hnode⟩ := hnode p hp
      cases p with
      | nil => exact absurd rfl hne
      | cons s q =>
        obtain ⟨w, hw, -⟩ := h.mem_parts_of_hasNode hnode
        exact ⟨(s, w), hw, q, rfl, (hQ s w q hw).mp hp⟩
  · obtain ⟨part, hpart, q, rfl, hq⟩ := hp
    exact hR part.1 part.2 q a hpart hq

end Listed

section Nodes

variable {v : Value} {n : Node}

theorem nodesInList_eq (items : List Value) : nodesInList items = items.flatMap nodes := by
  induction items with
  | nil => rfl
  | cons v rest ih => rw [nodesInList, ih, List.flatMap_cons]

theorem nodesInEntries_eq (entries : List (String × Value)) :
    nodesInEntries entries = (keyed entries).flatMap fun part => part.2.nodes := by
  induction entries with
  | nil => rfl
  | cons e rest ih => rw [nodesInEntries, ih, keyed, keyed, List.map_cons, List.flatMap_cons]

theorem children_eq (n : Node) :
    n.children = (Value.node n).parts.flatMap fun part => part.2.nodes :=
  nodesInEntries_eq n.fields

theorem nodes_eq (hv : ¬v.HasNode []) : v.nodes = v.parts.flatMap fun part => part.2.nodes := by
  cases v with
  | node n => exact absurd ⟨n, rfl⟩ hv
  | list items =>
    have hitems : (parts (.list items)).map (·.2) = items := by
      refine List.ext_getElem (by simp [parts]) fun i hi hi' => ?_
      simp [parts]
    calc nodes (.list items) = ((parts (.list items)).map (·.2)).flatMap nodes := by
          rw [hitems, nodes, nodesInList_eq]
      _ = (parts (.list items)).flatMap fun part => part.2.nodes := List.flatMap_map _ _ _
  | map entries => exact nodesInEntries_eq entries
  | null | bool b | int n | text t => rfl

theorem outermost_nil (hv : v.HasNode []) : v.Outermost [] :=
  ⟨hv, fun _ hq _ => List.prefix_nil.mp hq⟩

theorem ne_nil_of_hasNode (hv : ¬v.HasNode []) {p : Path} (hp : v.HasNode p) : p ≠ [] := by
  rintro rfl
  exact hv hp

theorem listed_nodes (v : Value) (h : v.Ordered) :
    ListedBy v.Outermost (fun p n => v.at? p = some (.node n)) v.nodes := by
  induction v using parts_induction with | h v ih =>
  by_cases hv : v.HasNode []
  · obtain ⟨n, rfl⟩ := hasNode_nil_iff.mp hv
    refine listedBy_of_lt [[]] (List.pairwise_singleton _ _) (fun p => ?_)
      (List.Forall₂.cons rfl List.Forall₂.nil)
    rw [List.mem_singleton]
    constructor
    · rintro rfl
      exact outermost_nil hv
    · intro ho
      exact (ho.first [] List.nil_prefix hv).symm
  · rw [nodes_eq hv]
    refine h.listedBy (Q := Outermost) (R := fun w p n => w.at? p = some (.node n)) ?_ ?_
      (fun s w p hw => h.outermost_cons_iff hv hw) ?_
    · intro part hpart
      exact ih part hpart (h.of_mem_parts hpart)
    · intro p ho
      exact ⟨ne_nil_of_hasNode hv ho.node, ho.node⟩
    · intro s w p n hw hp
      exact (h.at?_cons hw).trans hp

/-- The children of a node are the nodes that stand in its fields with none between. -/
theorem listed_children (h : (Value.node n).Ordered) :
    ListedBy ((Value.node n).Encloses [])
      (fun p child => (Value.node n).at? p = some (.node child)) n.children := by
  rw [children_eq]
  refine h.listedBy (Q := Outermost) (R := fun w p n => w.at? p = some (.node n)) ?_ ?_
    (fun s w p hw => h.encloses_nil_iff ⟨n, rfl⟩ hw) ?_
  · intro part hpart
    exact listed_nodes part.2 (h.of_mem_parts hpart)
  · intro p he
    exact ⟨he.ne.symm, he.inner⟩
  · intro s w p child hw hp
    exact (h.at?_cons hw).trans hp

/-- A visit has the node at a path, and as its parent the one that it stands in. -/
def Reports (v : Value) (outside : Option Node) (p : Path) (visit : Visit) : Prop :=
  v.at? p = some (.node visit.2) ∧ v.StandsIn outside p visit.1

theorem listed_visits (v : Value) (h : v.Ordered) (outside : Option Node) :
    ListedBy v.HasNode (v.Reports outside) (v.nodes.flatMap (Node.visits outside)) := by
  induction v using parts_induction generalizing outside with | h v ih =>
  by_cases hv : v.HasNode []
  · obtain ⟨n, rfl⟩ := hasNode_nil_iff.mp hv
    -- The node itself is reported with the one outside, what its fields hold with the node.
    have hbelow : ListedBy (fun p => p ≠ [] ∧ (Value.node n).HasNode p)
        ((Value.node n).Reports outside) (n.children.flatMap (Node.visits (some n))) := by
      rw [children_eq, List.flatMap_assoc]
      refine h.listedBy (f := fun w => w.nodes.flatMap (Node.visits (some n))) (Q := HasNode)
        (R := fun w => w.Reports (some n)) ?_ (fun p hp => hp) ?_ ?_
      · intro part hpart
        exact ih part hpart (h.of_mem_parts hpart) (some n)
      · intro s w p hw
        simp [h.hasNode_cons_iff hw]
      · rintro s w p visit hw ⟨hat, hin⟩
        exact ⟨(h.at?_cons hw).trans hat, standsIn_of_field h hw hin⟩
    have hself : (Value.node n).Reports outside [] (outside, n) :=
      ⟨rfl, Or.inr ⟨outermost_nil hv, rfl⟩⟩
    rw [nodes, List.flatMap_singleton, Node.visits_eq]
    refine (hbelow.cons (fun p hp => hp.1) hself).imp (fun p => ?_) fun p visit hp => hp
    by_cases hp : p = []
    · simp [hp, hv]
    · simp [hp]
  · rw [nodes_eq hv, List.flatMap_assoc]
    refine h.listedBy (f := fun w => w.nodes.flatMap (Node.visits outside)) (Q := HasNode)
      (R := fun w => w.Reports outside) ?_ ?_ (fun s w p hw => h.hasNode_cons_iff hw) ?_
    · intro part hpart
      exact ih part hpart (h.of_mem_parts hpart) outside
    · intro p hp
      exact ⟨ne_nil_of_hasNode hv hp, hp⟩
    · rintro s w p visit hw ⟨hat, hin⟩
      exact ⟨(h.at?_cons hw).trans hat, h.standsIn_of_part hv hw hin⟩

theorem Ordered.of_at? {w : Value} {p : Path} (h : v.Ordered) (hp : v.at? p = some w) :
    w.Ordered := by
  induction p generalizing v with
  | nil =>
    cases hp
    exact h
  | cons s p ih =>
    obtain ⟨part, hpart, hp⟩ := Option.bind_eq_some_iff.mp hp
    exact ih (h.of_mem_parts (h.part?_eq_some.mp hpart)) hp

theorem ListedBy.exists_of_mem {α : Type} {Q : Path → Prop} {R : Path → α → Prop} {as : List α}
    (h : ListedBy Q R as) {a : α} (ha : a ∈ as) : ∃ p, R p a := by
  obtain ⟨paths, -, -, -, hmatch⟩ := h
  clear * - hmatch ha
  induction hmatch with
  | nil => cases ha
  | cons hfirst _ ih =>
    rcases List.mem_cons.mp ha with rfl | ha
    · exact ⟨_, hfirst⟩
    · exact ih ha

end Nodes

end Value

/-- Takes the visit that a stack ends in and puts those of its children there, the first of them
last. -/
def popVisit (stack : List Visit) : Option (Visit × List Visit) :=
  stack.getLast?.map fun v => (v, stack.dropLast ++ v.children.reverse)

/-- Popping a stack until it is empty gives the visits one after the other. -/
inductive Yields : List Visit → List Visit → Prop where
  | done {stack : List Visit} : popVisit stack = none → Yields stack []
  | next {stack rest visits : List Visit} {v : Visit} :
    popVisit stack = some (v, rest) → Yields rest visits → Yields stack (v :: visits)

theorem popVisit_append (stack : List Visit) (v : Visit) :
    popVisit (stack ++ [v]) = some (v, stack ++ v.children.reverse) := by
  rw [popVisit, List.getLast?_concat, List.dropLast_concat, Option.map_some]

theorem Yields.unique {stack visits others : List Visit} (h : Yields stack visits)
    (hother : Yields stack others) : visits = others := by
  induction h generalizing others with
  | done hpop =>
    cases hother with
    | done => rfl
    | next hpop' => cases hpop.symm.trans hpop'
  | next hpop _ ih =>
    cases hother with
    | done hpop' => cases hpop.symm.trans hpop'
    | next hpop' hrest =>
      cases hpop.symm.trans hpop'
      exact congrArg _ (ih hrest)

theorem yields_visitAll (stack : List Visit) : Yields stack.reverse (visitAll stack) := by
  induction stack using visitAll.induct with
  | case1 =>
    rw [visitAll]
    exact .done rfl
  | case2 v stack ih =>
    rw [List.reverse_append] at ih
    rw [visitAll, List.reverse_cons]
    exact .next (popVisit_append _ _) ih

theorem yields_iff {stack visits : List Visit} :
    Yields stack visits ↔ visits = visitAll stack.reverse := by
  have hall : Yields stack (visitAll stack.reverse) := by
    simpa using yields_visitAll stack.reverse
  constructor
  · exact fun h => h.unique hall
  · rintro rfl
    exact hall

theorem walk_listed {root : Node} (h : root.Ordered) :
    Value.ListedBy (Value.node root).HasNode ((Value.node root).Reports none) root.walk := by
  have hroot : (Value.node root).Ordered := h
  have hvisits := Value.listed_visits (.node root) hroot none
  rwa [Value.nodes, List.flatMap_singleton, ← walk_eq] at hvisits

theorem Node.Ordered.of_mem_walk {root : Node} (h : root.Ordered) {v : Visit}
    (hv : v ∈ root.walk) : v.2.Ordered := by
  have hroot : (Value.node root).Ordered := h
  obtain ⟨p, hat, -⟩ := (walk_listed h).exists_of_mem hv
  exact hroot.of_at? hat

/-- A walk is the stack emptied and the recursion unrolled. With entries in key order, it takes the
nodes in the order of their paths, each of them once and behind the one it stands in, which it
reports. -/
theorem Node.walk_preorder (root : Node) :
    (∀ visits, Yields [(none, root)] visits ↔ visits = root.walk) ∧
    root.walk = root.visits none ∧
    (∀ (parent : Option Node) (n : Node),
      n.visits parent = (parent, n) :: n.children.flatMap (visits (some n))) ∧
    (root.Ordered →
      (∀ v ∈ root.walk, Value.ListedBy ((Value.node v.2).Encloses [])
        (fun p child => (Value.node v.2).at? p = some (.node child)) v.2.children) ∧
      Value.ListedBy (Value.node root).HasNode ((Value.node root).Reports none) root.walk ∧
      ∀ q p, (Value.node root).Encloses q p → q < p) := by
  refine ⟨fun visits => yields_iff, walk_eq root, visits_eq, fun h => ⟨?_, walk_listed h, ?_⟩⟩
  · intro v hv
    exact Value.listed_children (h.of_mem_walk hv)
  · intro q p he
    exact he.lt

/-- A block with nodes in lists and in a map. -/
def nestedBlock : Node :=
  let five := Node.mk 5 "" "Literal" []
  .mk 1 "" "Block"
    [("body", .list [.list [.null, .node (.mk 2 "" "Literal" [])], .node (.mk 3 "" "Literal" [])]),
      ("exports", .map [("last", .node (.mk 4 "" "Block" [("body", .node five)])),
        ("next", .list [.node (.mk 6 "" "Literal" [])])])]

theorem walk_preorder_nestedBlock :
    nestedBlock.walk.map (fun v => (v.1.map Node.id, v.2.id)) =
      [(none, 1), (some 1, 2), (some 1, 3), (some 1, 4), (some 4, 5), (some 1, 6)] ∧
    nestedBlock.Ordered ∧
    Value.ListedBy (Value.node nestedBlock).HasNode ((Value.node nestedBlock).Reports none)
      nestedBlock.walk := by
  obtain ⟨-, hwalk, -, hlisted⟩ := Node.walk_preorder nestedBlock
  have hordered : nestedBlock.Ordered := by
    simp only [nestedBlock, Node.Ordered, Node.Holds, Value.HoldsInEntries, Value.HoldsInList,
      Value.Holds, Entries.Ascending, and_true]
    decide
  refine ⟨?_, hordered, (hlisted hordered).2.1⟩
  rw [hwalk]
  rfl

end TreeFacts
