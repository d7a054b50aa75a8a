import TreeFacts.Proofs.Encoding.Forest
import TreeFacts.Proofs.Schema.Inputs
import TreeFacts.Proofs.Solidity.Enrichment
import TreeFacts.Proofs.Tree.Walk

namespace TreeFacts

namespace FactValue

variable {r : Registry} {type element : ColumnType}

/-- The values of a list type are chains of cells, each an element and the rest, ended by nil. -/
theorem eq_ofList_of_hasType (hl : r.IsListOf type element) :
    ∀ v : FactValue, HasType r v type → ∃ items, v = ofList items ∧
      ∀ item ∈ items, HasType r item element
  | nil, _ => ⟨[], rfl, by simp⟩
  | record [head, tail], h => by
    simp only [HasType] at h
    obtain ⟨-, fields, hfields, h⟩ := h
    rw [hl.2] at hfields
    cases hfields
    simp only [HaveTypes] at h
    obtain ⟨items, rfl, hitems⟩ := eq_ofList_of_hasType hl tail h.2.1
    refine ⟨head :: items, rfl, ?_⟩
    intro item hitem
    rcases List.mem_cons.mp hitem with rfl | hitem
    · exact h.1
    · exact hitems item hitem
  -- A record of any other width does not have the two fields of a cell.
  | record [], h | record [_], h | record (_ :: _ :: _ :: _), h => by
    simp only [HasType] at h
    obtain ⟨-, fields, hfields, h⟩ := h
    rw [hl.2] at hfields
    cases hfields
    simp [HaveTypes] at h
  | number n, h => by
    simp only [HasType] at h
    obtain ⟨c, hc, h⟩ := h
    rw [hl.1] at hc
    cases hc
    simp at h
  | symbol s, h => by
    simp only [HasType] at h
    rw [hl.1] at h
    cases h
  | branch tag args, h => by
    simp only [HasType] at h
    rw [hl.1] at h
    cases h.1

end FactValue

theorem haveTypes_pair {r : Registry} {t : Tuple} {a b : String × ColumnType}
    (h : HaveTypes r t [a, b]) : ∃ v w, t = [v, w] ∧ HasType r v a.2 ∧ HasType r w b.2 := by
  have hlen := h.length_eq
  obtain ⟨v, w, rfl⟩ : ∃ v w, t = [v, w] := List.length_eq_two.mp hlen
  simp only [HaveTypes] at h
  exact ⟨v, w, rfl, h.1, h.2.1⟩

namespace Schema

variable {g : Grammar} {skip : SkipSet} {e : Enrichment} {s : Schema}

theorem nodeFacts_admitted (h : derive g skip e = .ok s) {k : KindSchema} (hk : k ∈ s.kinds)
    (hc : k.isAbstract = false) (hf : k.Fits s.registry) {v : Visit} {fact : Fact}
    (hfact : fact ∈ nodeFacts k v) : ∃ d ∈ s.inputs, d.Admits s.registry fact := by
  have hid (n : NodeId) : HasType s.registry (.number n) .id :=
    FactValue.hasType_number (Registry.classify_id s.registry) (Or.inr (Or.inr rfl)) n
  have hkind (n : NodeId) : HasType s.registry (.number n) k.idType :=
    FactValue.hasType_number hf.id (Or.inr (Or.inr rfl)) n
  have hsymbol (text : String) : HasType s.registry (.symbol text) .symbol :=
    FactValue.hasType_symbol (Registry.classify_symbol s.registry) text
  obtain ⟨hparent, hsrc⟩ := tree_mem_inputs h
  obtain ⟨parent, n⟩ := v
  simp only [nodeFacts, List.mem_append, List.mem_cons, List.not_mem_nil, or_false] at hfact
  rcases hfact with (rfl | rfl) | hfact
  · refine ⟨k.membership, membership_mem_inputs h hk hc, rfl, ?_⟩
    simp [KindSchema.membership, HaveTypes, hkind]
  · refine ⟨srcRelation, hsrc, rfl, ?_⟩
    simp [srcRelation, HaveTypes, hid, hsymbol]
  · cases parent with
    | none => simp at hfact
    | some parent =>
      rw [List.mem_singleton.mp hfact]
      refine ⟨parentRelation, hparent, rfl, ?_⟩
      simp [parentRelation, HaveTypes, hid]

theorem fieldTuples_admitted {k : KindSchema} (hf : k.Fits s.registry) {p : FieldProjection}
    (hp : p ∈ k.fields) {n : Node}
    (hts : p.tuples (s.context k p) (.number n.id) (n.value p.field) = .ok (s.fieldTuples k n p))
    {t : Tuple} (ht : t ∈ s.fieldTuples k n p) :
    HaveTypes s.registry t (p.toRelation k.idType).columns := by
  have hfits : p.Fits (s.context k p).registry := hf.fields p hp
  have hid : HasType (s.context k p).registry (.number n.id) k.idType :=
    FactValue.hasType_number hf.id (Or.inr (Or.inr rfl)) n.id
  obtain ⟨slot, hslot, hfills⟩ := exists_of_forall₂ (FieldProjection.tuples_fills hts) ht
  exact FieldProjection.fills_haveTypes hfits hid hslot hfills

theorem factsOf_admitted (h : derive g skip e = .ok s) (hf : ∀ k ∈ s.kinds, k.Fits s.registry)
    {v : Visit} (hv : s.Encodes v.2) {fact : Fact} (hfact : fact ∈ s.factsOf v) :
    ∃ d ∈ s.inputs, d.Admits s.registry fact := by
  obtain ⟨k, hkind, hc, hps⟩ := hv
  have hk := ((kind?_eq_some h).mp hkind).1
  rw [factsOf, hkind, Option.map_some, Option.getD_some, kindFacts] at hfact
  rcases List.mem_append.mp hfact with hfact | hfact
  · exact nodeFacts_admitted h hk hc (hf k hk) hfact
  · obtain ⟨p, hp, hfact⟩ := List.mem_flatMap.mp hfact
    obtain ⟨t, ht, rfl⟩ := List.mem_map.mp hfact
    exact ⟨p.toRelation k.idType, toRelation_mem_inputs h hk hp, rfl,
      fieldTuples_admitted (hf k hk) hp (hps p hp) ht⟩

theorem addAll_admitted (h : derive g skip e = .ok s) {facts : List Fact}
    (hf : ∀ fact ∈ facts, ∃ d ∈ s.inputs, d.Admits s.registry fact) :
    ∃ fs, (FactSet.ofRelations s.inputs).addAll facts = .ok fs := by
  refine FactSet.addAll_isOk ?_
  intro fact hfact
  obtain ⟨d, hd, hname, htypes⟩ := hf fact hfact
  refine ⟨d, [], ?_, htypes.length_eq⟩
  rw [FactSet.table?_ofRelations, (find?_inputs h).mpr ⟨hd, hname⟩, Option.map_some]

theorem table?_of_addAll_inputs (h : derive g skip e = .ok s) {facts : List Fact} {fs : FactSet}
    (hfs : (FactSet.ofRelations s.inputs).addAll facts = .ok fs) {d : Relation}
    (hd : d ∈ s.inputs) : fs.table? d.name = some (d, tuplesUnder d.name facts) := by
  rw [FactSet.table?_of_addAll hfs, FactSet.table?_ofRelations,
    (find?_inputs h).mpr ⟨hd, rfl⟩]
  rfl

theorem mem_inputs_of_table? (h : derive g skip e = .ok s) {facts : List Fact} {fs : FactSet}
    (hfs : (FactSet.ofRelations s.inputs).addAll facts = .ok fs) {name : String} {d : Relation}
    {tuples : List Tuple} (ht : fs.table? name = some (d, tuples)) :
    d ∈ s.inputs ∧ d.name = name ∧ tuples = tuplesUnder name facts := by
  rw [FactSet.table?_of_addAll hfs, FactSet.table?_ofRelations, Option.map_map] at ht
  obtain ⟨d', hfind, heq⟩ := Option.map_eq_some_iff.mp ht
  cases heq
  obtain ⟨hd, hname⟩ := (find?_inputs h).mp hfind
  exact ⟨hd, hname, rfl⟩

theorem encodedFacts_admitted (h : derive g skip e = .ok s) (hg : g.NamesEnums) (he : e.Sound)
    {visits : List Visit} {out : Encoded} (hout : s.walkFacts e [] visits = .ok out) {fact : Fact}
    (hfact : fact ∈ out.facts ++ e.once) : ∃ d ∈ s.inputs, d.Admits s.registry fact := by
  obtain ⟨hf, hextra⟩ := derive_fits hg he h
  obtain ⟨-, -, hencodes, hfacts⟩ := walkFacts_eq_ok hout
  rcases List.mem_append.mp hfact with hfact | hfact
  · rw [hfacts] at hfact
    obtain ⟨v, hv, hfact⟩ := List.mem_flatMap.mp hfact
    rcases List.mem_append.mp hfact with hfact | hfact
    · exact factsOf_admitted h hf (hencodes v hv) hfact
    · exact hextra fact (Or.inr ⟨v.2, hfact⟩)
  · exact hextra fact (Or.inl hfact)

/-- Every tuple fits its relation, and every tuple of a record list is a list of typed elements. -/
structure HoldsFitting (s : Schema) (fs : FactSet) : Prop where
  tables : ∀ {name d tuples}, fs.table? name = some (d, tuples) → d ∈ s.inputs ∧ d.name = name ∧
    ∀ t ∈ tuples, t.length = d.arity ∧ HaveTypes s.registry t d.columns
  lists : ∀ k ∈ s.kinds, ∀ p ∈ k.fields, p.shape = .recordList →
    ∃ element tuples, s.registry.IsListOf p.valueType element ∧
      fs.facts p.relation = .ok tuples ∧ ∀ t ∈ tuples, ∃ id items, t = [id, .ofList items] ∧
        ∀ item ∈ items, HasType s.registry item element

theorem holdsFitting_of_admitted (h : derive g skip e = .ok s)
    (hf : ∀ k ∈ s.kinds, k.Fits s.registry) {facts : List Fact}
    (hadmitted : ∀ fact ∈ facts, ∃ d ∈ s.inputs, d.Admits s.registry fact) {fs : FactSet}
    (hfs : (FactSet.ofRelations s.inputs).addAll facts = .ok fs) : s.HoldsFitting fs := by
  have htyped : ∀ d ∈ s.inputs, ∀ t ∈ tuplesUnder d.name facts,
      HaveTypes s.registry t d.columns := by
    intro d hd t ht
    obtain ⟨d', hd', hname, htypes⟩ := hadmitted (d.name, t) (mem_tuplesUnder.mp ht)
    have hsame : some d' = some d :=
      ((find?_inputs h).mpr ⟨hd', hname⟩).symm.trans ((find?_inputs h).mpr ⟨hd, rfl⟩)
    cases hsame
    exact htypes
  constructor
  · intro name d tuples ht
    obtain ⟨hd, rfl, rfl⟩ := mem_inputs_of_table? h hfs ht
    exact ⟨hd, rfl, fun t ht => ⟨(htyped d hd t ht).length_eq, htyped d hd t ht⟩⟩
  · intro k hk p hp hshape
    obtain ⟨element, hl, -⟩ := ((hf k hk).fields p hp).list hshape
    have hd := toRelation_mem_inputs h hk hp
    have htable := table?_of_addAll_inputs h hfs hd
    refine ⟨element, tuplesUnder p.relation facts, hl, FactSet.facts_of_table? htable, ?_⟩
    intro t ht
    have htypes := htyped _ hd t ht
    rw [FieldProjection.columns_toRelation, hshape] at htypes
    obtain ⟨id, w, rfl, -, hw⟩ := haveTypes_pair htypes
    obtain ⟨items, rfl, hitems⟩ := FactValue.eq_ofList_of_hasType hl w hw
    exact ⟨id, items, rfl, hitems⟩

/-- Encoding a forest fits the schema: it fails only for a fault of the forest, and every tuple that
it gives has the columns of its relation, each value of the type of its column. -/
theorem encodeAll_fits (hg : g.NamesEnums)
    (he : e = Enrichment.none ∨ ∃ version?, e = Solidity.enrichment version?)
    (h : derive g skip e = .ok s) (roots : List Node) :
    (∀ err, s.encodeAll e roots = .error err → err.BlamesForest) ∧
      ∀ fs warnings, s.encodeAll e roots = .ok (fs, warnings) → s.HoldsFitting fs := by
  have hsound : e.Sound := by
    rcases he with rfl | ⟨version?, rfl⟩
    · exact Enrichment.none_sound
    · exact Solidity.enrichment_sound version?
  have hf := (derive_fits hg hsound h).1
  -- The walk fails only for the forest, and what it gives can always be added.
  constructor
  · intro err herr
    unfold encodeAll at herr
    rcases bind_eq_error.mp herr with hwalk | ⟨out, hout, hadd⟩
    · exact walkFacts_eq_error hf hwalk
    · obtain ⟨fs, hfs⟩ := addAll_admitted h fun fact => encodedFacts_admitted h hg hsound hout
      rw [hfs] at hadd
      cases hadd
  · intro fs warnings hfs
    obtain ⟨out, hout, hadd⟩ := encodeAll_eq_ok hfs
    exact holdsFitting_of_admitted h hf (fun fact => encodedFacts_admitted h hg hsound hout) hadd

/-- Units of literals and sums. -/
def arithmetic : Grammar :=
  ⟨"Node", ["Operator"],
    [.abstract "Expression" "Node",
      .concrete "Unit" "Node" [⟨"parts", .array, .node "Expression"⟩,
        ⟨"exports", .map, .nodeUnion ["Literal", "Operation"]⟩, ⟨"history", .recordList, .anyNode⟩],
      .concrete "Literal" "Expression" [⟨"value", .scalar, .number⟩, ⟨"hex", .optional, .bool⟩],
      .concrete "Operation" "Expression" [⟨"operator", .scalar, .enumeration "Operator"⟩,
        ⟨"operands", .sparseArray, .node "Expression"⟩]]⟩

/-- A unit with a literal and an operation on it. No node has the identifier 9. -/
def arithmeticForest : List Node :=
  let seven := Node.mk 2 "0:1:0" "Literal" [("hex", .bool true), ("value", .int 7)]
  let one := Node.mk 4 "4:1:0" "Literal" [("value", .int 1)]
  let sum := Node.mk 3 "2:5:0" "Operation"
    [("operands", .list [.null, .int 2, .node one]), ("operator", .text "+")]
  [.mk 1 "0:7:0" "Unit"
    [("exports", .map [("a", .int 3), ("b", .list [.int 2, .int 9])]),
      ("history", .list [.int 3, .int 9]), ("parts", .list [.node seven, .node sum])]]

def arithmeticSchema : Schema :=
  (derive arithmetic .empty .none).toOption.getD ⟨"", .empty, [], [], [], []⟩

def arithmeticFacts : FactSet :=
  ((arithmeticSchema.encodeAll .none arithmeticForest).toOption.map (·.1)).getD .empty

theorem namesEnums_arithmetic : arithmetic.NamesEnums where
  declared := by decide
  distinct := by decide

theorem derive_arithmetic : derive arithmetic .empty .none = .ok arithmeticSchema := by
  decide +kernel

theorem encodeAll_arithmetic :
    arithmeticSchema.encodeAll .none arithmeticForest = .ok (arithmeticFacts, []) := by
  decide +kernel

theorem encodeAll_fits_arithmetic :
    arithmetic.NamesEnums ∧ derive arithmetic .empty .none = .ok arithmeticSchema ∧
      arithmeticSchema.encodeAll .none arithmeticForest = .ok (arithmeticFacts, []) ∧
      arithmeticSchema.HoldsFitting arithmeticFacts := by
  refine ⟨namesEnums_arithmetic, derive_arithmetic, encodeAll_arithmetic, ?_⟩
  exact (encodeAll_fits namesEnums_arithmetic (Or.inl rfl) derive_arithmetic
    arithmeticForest).2 _ _ encodeAll_arithmetic

end Schema

end TreeFacts
