import TreeFacts.Proofs.Encoding.Fitting
import TreeFacts.Proofs.Schema.Restriction

namespace TreeFacts

open Registry (Below)

namespace FieldContext

variable {q : Registry} {c : FieldContext} {column : ColumnType}

theorem sentinel_congr (h : q.classify column = c.registry.classify column) :
    FieldContext.sentinel { c with registry := q } column = c.sentinel column := by
  unfold sentinel
  rw [h]
  rfl

/-- Only a value of a record or a union is read with the types that are defined. -/
theorem element_congr {semantic : SemanticType}
    (h : semantic.entry?.isSome → c.registry.classify column = .ok .symbol ∧
      q.classify column = .ok .symbol) (v : Value) :
    FieldContext.element { c with registry := q } semantic column v =
      c.element semantic column v := by
  cases semantic with
  | number | bool | text | enumeration _ | node _ | anyNode | nodeUnion _ | nodeOrKeyword _ => rfl
  | record name | union name =>
    obtain ⟨hc, hq⟩ := h rfl
    have hq' : (FieldContext.mk q c.kind c.field).registry.classify column = .ok .symbol := hq
    show (Reading.of _ v).value column = (Reading.of c v).value column
    rw [Reading.of_value_symbol hc, Reading.of_value_symbol hq']
    rfl

end FieldContext

namespace FieldProjection

variable {q : Registry} {c : FieldContext} {p : FieldProjection} {id : FactValue}

theorem arrayTuples_congr
    (h : ∀ v, FieldContext.element { c with registry := q } p.semantic p.valueType v =
      c.element p.semantic p.valueType v) (index : Nat) (vs : List Value) :
    arrayTuples p { c with registry := q } id index vs = arrayTuples p c id index vs := by
  induction vs generalizing index with
  | nil => rfl
  | cons v vs ih =>
    rw [arrayTuples, arrayTuples, h, ih]
    rfl

theorem sparseTuples_congr
    (h : ∀ v, FieldContext.element { c with registry := q } p.semantic p.valueType v =
      c.element p.semantic p.valueType v) (index rawIndex : Nat) (vs : List Value) :
    sparseTuples p { c with registry := q } id index rawIndex vs =
      sparseTuples p c id index rawIndex vs := by
  induction vs generalizing index rawIndex with
  | nil => rfl
  | cons v vs ih => rw [sparseTuples, sparseTuples, h, ih, ih]

theorem entryTuples_congr
    (h : ∀ v, FieldContext.element { c with registry := q } p.semantic p.valueType v =
      c.element p.semantic p.valueType v) (entry : String × Value) :
    entryTuples p { c with registry := q } id entry = entryTuples p c id entry := by
  refine mapM_congr fun v _ => ?_
  rw [h]

/-- What a field gives does not depend on definitions that do not settle its type. -/
theorem tuples_congr {element : ColumnType} {class' : TypeClass}
    (hc : c.registry.classify element = .ok class') (hq : q.classify element = .ok class')
    (hentry : p.semantic.entry?.isSome → class' = .symbol)
    (hshape : p.shape = .recordList ∧ c.registry.IsListOf p.valueType element ∧
        q.IsListOf p.valueType element ∨ p.shape ≠ .recordList ∧ p.valueType = element)
    (v : Value) : p.tuples { c with registry := q } id v = p.tuples c id v := by
  have helement (v : Value) : FieldContext.element { c with registry := q } p.semantic element v =
      c.element p.semantic element v := by
    refine FieldContext.element_congr (fun hsome => ?_) v
    rw [hentry hsome] at hc hq
    exact ⟨hc, hq⟩
  rcases hshape with ⟨hshape, hlist, hlist'⟩ | ⟨hshape, rfl⟩
  · have hsame : FieldContext.element { c with registry := q } p.semantic element =
        c.element p.semantic element := funext helement
    unfold tuples
    simp only [hshape, hlist.2, hlist'.2, hsame]
    rfl
  · have hsentinel := FieldContext.sentinel_congr (hq.trans hc.symm)
    unfold tuples
    cases hp : p.shape with
    | recordList => exact absurd hp hshape
    | scalar => simp only [hsentinel, helement]
    | optional => simp only [hsentinel, helement]
    | array =>
      simp only [arrayTuples_congr helement]
      rfl
    | sparseArray =>
      simp only [sparseTuples_congr helement]
      rfl
    | map =>
      have hentries : entryTuples p { c with registry := q } id = entryTuples p c id :=
        funext (entryTuples_congr helement)
      simp only [hentries]
      rfl

theorem Settled.tuples_eq {h : Hierarchy} {enums : List String} (hp : p.Settled q)
    (hb : Below h enums q c.registry) (hbuilt : q.Built) (v : Value) :
    p.tuples { c with registry := q } id v = p.tuples c id v := by
  obtain ⟨element, class', hclass, hentry, hshape⟩ := hp
  refine tuples_congr (hb.classify_eq hbuilt hclass) hclass hentry ?_ v
  exact hshape.imp_left fun hl => ⟨hl.1, hb.isListOf hbuilt hl.2, hl.2⟩

theorem Settled.isAmbiguous_eq {h : Hierarchy} {enums : List String} (hp : p.Settled q)
    (hb : Below h enums q c.registry) (hbuilt : q.Built) (v : Value) :
    p.isAmbiguous { c with registry := q } v = p.isAmbiguous c v := by
  obtain ⟨element, class', hq, hentry, ⟨hshape, -⟩ | ⟨-, rfl⟩⟩ := hp
  · unfold isAmbiguous
    rw [hshape]
    rfl
  · have hc := hb.classify_eq hbuilt hq
    have helement : FieldContext.element { c with registry := q } p.semantic p.valueType v =
        c.element p.semantic p.valueType v := by
      refine FieldContext.element_congr (fun hsome => ?_) v
      rw [hentry hsome] at hc hq
      exact ⟨hc, hq⟩
    unfold isAmbiguous FieldContext.isSentinel
    rw [helement, FieldContext.sentinel_congr (hq.trans hc.symm)]

end FieldProjection

namespace Schema

variable {g : Grammar} {skip skip' : SkipSet} {e : Enrichment} {s : Schema} {q : Registry}
  {k : KindSchema} {h : Hierarchy} {enums : List String} {n : Node}

/-- The facts that remain where a skip set leaves fields out, in the order they had. -/
def kept (s : Schema) (skip : SkipSet) (facts : List Fact) : List Fact :=
  facts.filter fun fact => fact.1 ∉ s.skipped skip

theorem kept_append (s : Schema) (skip : SkipSet) (facts more : List Fact) :
    s.kept skip (facts ++ more) = s.kept skip facts ++ s.kept skip more := List.filter_append ..

theorem kept_eq_self {facts : List Fact} (hf : ∀ fact ∈ facts, fact.1 ∉ s.skipped skip) :
    s.kept skip facts = facts := by
  refine List.filter_eq_self.mpr fun fact hfact => decide_eq_true ?_
  exact hf fact hfact

theorem kept_eq_nil {facts : List Fact} (hf : ∀ fact ∈ facts, fact.1 ∈ s.skipped skip) :
    s.kept skip facts = [] := by
  refine List.filter_eq_nil_iff.mpr fun fact hfact => ?_
  simpa using hf fact hfact

theorem tuplesUnder_kept {name : String} (hname : name ∉ s.skipped skip) (facts : List Fact) :
    tuplesUnder name (s.kept skip facts) = tuplesUnder name facts := by
  unfold tuplesUnder kept
  rw [List.filter_filter]
  refine congrArg (List.map _) (List.filter_congr fun fact _ => ?_)
  by_cases hfact : fact.1 = name
  · simp [hfact, hname]
  · simp [hfact]

theorem fieldFacts_without {p : FieldProjection} (hp : p.Settled q)
    (hb : Below h enums q s.registry) (hbuilt : q.Built) :
    (s.without skip' q).fieldFacts (k.without skip') n p = s.fieldFacts k n p := by
  have htuples := @FieldProjection.Settled.tuples_eq q (s.context k p) p (.number n.id) _ _ hp hb
    hbuilt ((n.field? p.field).getD .null)
  have hambiguous := @FieldProjection.Settled.isAmbiguous_eq q (s.context k p) p _ _ hp hb
    hbuilt ((n.field? p.field).getD .null)
  unfold fieldFacts
  show (FieldProjection.tuples p { s.context k p with registry := q } _ _ >>= fun tuples =>
    Except.ok (Encoded.mk (tuples.map (p.relation, ·))
      (if p.isAmbiguous { s.context k p with registry := q } _ then _ else []))) = _
  rw [htuples, hambiguous]
  rfl

theorem fieldFacts_kept {p : FieldProjection}
    (hiff : p.relation ∈ s.skipped skip' ↔ skip'.contains k.name p.field = true) {out : Encoded}
    (hout : s.fieldFacts k n p = .ok out) :
    s.kept skip' out.facts = if skip'.contains k.name p.field then [] else out.facts := by
  have hrelation : ∀ fact ∈ out.facts, fact.1 = p.relation := by
    intro fact hfact
    rw [(fieldFacts_eq_ok hout).2] at hfact
    obtain ⟨t, -, rfl⟩ := List.mem_map.mp hfact
    rfl
  split
  next hskip => exact kept_eq_nil fun fact hfact => hrelation fact hfact ▸ hiff.mpr hskip
  next hskip =>
    exact kept_eq_self fun fact hfact hmem => hskip (hiff.mp (hrelation fact hfact ▸ hmem))

theorem fieldsFacts_without (hb : Below h enums q s.registry) (hbuilt : q.Built)
    {ps : List FieldProjection}
    (hps : ∀ p ∈ ps, (p.relation ∈ s.skipped skip' ↔ skip'.contains k.name p.field = true) ∧
      (skip'.contains k.name p.field = false → p.Settled q))
    {out : Encoded} (hout : s.fieldsFacts k n ps = .ok out) :
    ∃ out', (s.without skip' q).fieldsFacts (k.without skip') n
        (ps.filter fun p => !skip'.contains k.name p.field) = .ok out' ∧
      out'.facts = s.kept skip' out.facts := by
  induction ps generalizing out with
  | nil =>
    cases hout
    exact ⟨_, rfl, rfl⟩
  | cons p ps ih =>
    unfold fieldsFacts at hout
    obtain ⟨first, hfirst, hout⟩ := bind_eq_ok.mp hout
    obtain ⟨rest, hrest, hout⟩ := bind_eq_ok.mp hout
    cases hout
    obtain ⟨hiff, hsettled⟩ := hps p List.mem_cons_self
    obtain ⟨rest', hrest', hfacts⟩ :=
      ih (fun other hother => hps other (List.mem_cons_of_mem _ hother)) hrest
    have happend : (first ++ rest).facts = first.facts ++ rest.facts := rfl
    rw [happend, kept_append, fieldFacts_kept hiff hfirst, List.filter_cons]
    cases hskip : skip'.contains k.name p.field with
    | true => exact ⟨rest', hrest', hfacts⟩
    | false =>
      have hsame : (s.without skip' q).fieldFacts (k.without skip') n p = .ok first :=
        (fieldFacts_without (hsettled hskip) hb hbuilt).trans hfirst
      refine ⟨first ++ rest', ?_, ?_⟩
      · show (s.without skip' q).fieldsFacts (k.without skip') n (p :: _) = _
        rw [fieldsFacts, hsame, ok_bind, hrest', ok_bind]
        rfl
      · rw [← hfacts]
        rfl

theorem kind?_without (name : String) :
    (s.without skip' q).kind? name = (s.kind? name).map (.without skip') := by
  show (s.kinds.map (KindSchema.without skip')).find? _ = (s.kinds.find? _).map _
  rw [List.find?_map]
  rfl

theorem nodeFacts_kept (hs : derive g skip e = .ok s) (hk : k ∈ s.kinds) (hc : k.isAbstract = false)
    (v : Visit) : s.kept skip' (nodeFacts k v) = nodeFacts k v := by
  have hown : k.name ∉ s.skipped skip' := name_notMem_skipped hs hk hc
  obtain ⟨hparent, hsrc⟩ : parentRelation.name ∉ s.skipped skip' ∧
    srcRelation.name ∉ s.skipped skip' := tree_notMem_skipped hs
  refine kept_eq_self fun fact hfact => ?_
  unfold nodeFacts at hfact
  rcases List.mem_append.mp hfact with hfact | hfact
  · rcases List.mem_cons.mp hfact with rfl | hfact
    · exact hown
    · rw [List.mem_singleton.mp hfact]
      exact hsrc
  · split at hfact
    next =>
      rw [List.mem_singleton.mp hfact]
      exact hparent
    next => cases hfact

/-- One node has the facts that it had, but for those of the fields that are left out. -/
theorem visitFacts_without (hs : derive g skip e = .ok s) (hb : Below h enums q s.registry)
    (hbuilt : q.Built) (hsettled : ∀ k ∈ s.kinds, ∀ p ∈ (k.without skip').fields, p.Settled q)
    {v : Visit} {out : Encoded} (hout : s.visitFacts v = .ok out) :
    ∃ out', (s.without skip' q).visitFacts v = .ok out' ∧ out'.facts = s.kept skip' out.facts := by
  unfold visitFacts at hout
  split at hout
  next => cases hout
  next k hk =>
    obtain ⟨hkind, hconcrete⟩ := Option.filter_eq_some_iff.mp hk
    have hmem := ((kind?_eq_some hs).mp hkind).1
    have hc : k.isAbstract = false := by simpa using hconcrete
    obtain ⟨fields, hfields, hout⟩ := bind_eq_ok.mp hout
    cases hout
    have hps : ∀ p ∈ k.fields,
        (p.relation ∈ s.skipped skip' ↔ skip'.contains k.name p.field = true) ∧
          (skip'.contains k.name p.field = false → p.Settled q) := by
      intro p hp
      refine ⟨relation_mem_skipped hs hmem hp, fun hskip => hsettled k hmem p ?_⟩
      exact List.mem_filter.mpr ⟨hp, by rw [hskip]; rfl⟩
    obtain ⟨fields', hfields', hfacts⟩ := fieldsFacts_without hb hbuilt hps hfields
    have hk' : ((s.without skip' q).kind? v.2.kind).filter (fun k => !k.isAbstract) =
        some (k.without skip') := by
      rw [kind?_without, hkind, Option.map_some]
      exact Option.filter_eq_some_iff.mpr ⟨rfl, hconcrete⟩
    refine ⟨⟨nodeFacts k v, []⟩ ++ fields', ?_, ?_⟩
    · unfold visitFacts
      rw [hk']
      simp only
      have hsame : (s.without skip' q).fieldsFacts (k.without skip') v.2 (k.without skip').fields =
          .ok fields' := hfields'
      rw [hsame, ok_bind]
      rfl
    · show nodeFacts k v ++ fields'.facts = s.kept skip' (nodeFacts k v ++ fields.facts)
      rw [kept_append, nodeFacts_kept hs hmem hc, hfacts]

theorem walkFacts_without (hs : derive g skip e = .ok s) (hb : Below h enums q s.registry)
    (hbuilt : q.Built) (hsettled : ∀ k ∈ s.kinds, ∀ p ∈ (k.without skip').fields, p.Settled q)
    (he : ∀ n, ∀ fact ∈ e.ofNode n, fact.1 ∉ s.skipped skip') {seen : List NodeId}
    {visits : List Visit} {out : Encoded} (hout : s.walkFacts e seen visits = .ok out) :
    ∃ out', (s.without skip' q).walkFacts e seen visits = .ok out' ∧
      out'.facts = s.kept skip' out.facts := by
  induction visits generalizing seen out with
  | nil =>
    cases hout
    exact ⟨_, rfl, rfl⟩
  | cons v rest ih =>
    unfold walkFacts at hout ⊢
    split at hout
    next => cases hout
    next hfresh =>
      obtain ⟨own, hown, hout⟩ := bind_eq_ok.mp hout
      obtain ⟨others, hothers, hout⟩ := bind_eq_ok.mp hout
      cases hout
      obtain ⟨own', hown', hfacts⟩ := visitFacts_without hs hb hbuilt hsettled hown
      obtain ⟨others', hothers', hmore⟩ := ih hothers
      rw [if_neg hfresh, hown', ok_bind, hothers', ok_bind]
      refine ⟨_, rfl, ?_⟩
      show own'.facts ++ e.ofNode v.2 ++ others'.facts =
        s.kept skip' (own.facts ++ e.ofNode v.2 ++ others.facts)
      rw [kept_append, kept_append, kept_eq_self (he v.2), hfacts, hmore]

theorem find?_inputs_without {name : String} (hname : name ∉ s.skipped skip') :
    (s.without skip' q).inputs.find? (·.name == name) = s.inputs.find? (·.name == name) := by
  show (s.inputs.filter fun r => r.name ∉ s.skipped skip').find? _ = _
  rw [List.find?_filter]
  congr 1
  funext r
  by_cases hr : r.name = name
  · simp [hr, hname]
  · simp [hr]

theorem table?_ofRelations_without {name : String} (hname : name ∉ s.skipped skip') :
    (FactSet.ofRelations (s.without skip' q).inputs).table? name =
      (FactSet.ofRelations s.inputs).table? name := by
  rw [FactSet.table?_ofRelations, FactSet.table?_ofRelations, find?_inputs_without hname]

theorem addAll_kept {facts : List Fact} {fs : FactSet}
    (hfs : (FactSet.ofRelations s.inputs).addAll facts = .ok fs) :
    ∃ fs', (FactSet.ofRelations (s.without skip' q).inputs).addAll (s.kept skip' facts) = .ok fs' ∧
      ∀ name, name ∉ s.skipped skip' → fs'.table? name = fs.table? name := by
  obtain ⟨fs', hfs'⟩ : ∃ fs', (FactSet.ofRelations (s.without skip' q).inputs).addAll
      (s.kept skip' facts) = .ok fs' := by
    refine FactSet.addAll_isOk fun fact hfact => ?_
    obtain ⟨hmem, hkept⟩ := List.mem_filter.mp hfact
    rw [table?_ofRelations_without (of_decide_eq_true hkept)]
    exact FactSet.fits_of_addAll hfs fact hmem
  refine ⟨fs', hfs', fun name hname => ?_⟩
  rw [FactSet.table?_of_addAll hfs', FactSet.table?_of_addAll hfs, table?_ofRelations_without hname,
    tuplesUnder_kept hname]

theorem notMem_skipped_of_mem_relations (hs : derive g skip e = .ok s) {r : Relation}
    (hr : r ∈ (s.without skip' q).relations) : r.name ∉ s.skipped skip' := by
  rcases List.mem_append.mp hr with hr | hr
  · exact of_decide_eq_true (List.mem_filter.mp hr).2
  · exact markers_notMem_skipped hs (List.mem_map_of_mem hr)

theorem mem_relations_without {r : Relation} (hr : r ∈ s.inputs)
    (hname : r.name ∉ s.skipped skip') : r ∈ (s.without skip' q).relations :=
  List.mem_append_left _ (List.mem_filter.mpr ⟨hr, decide_eq_true hname⟩)

theorem enrichment_notMem_skipped (he : e.Uniform) (hs : derive g skip e = .ok s) {fact : Fact}
    (hfact : fact ∈ e.once ∨ ∃ n, fact ∈ e.ofNode n) : fact.1 ∉ s.skipped skip' := by
  obtain ⟨_, _, _, derived, -, -, -, hderived, hinputs, -⟩ := derive_eq_ok hs
  exact derived_notMem_skipped hs hinputs (he.declares hderived fact hfact)

/-- To skip more fields leaves everything else as it is: the relations but for those of the fields,
and in them all tuples of any forest that could be encoded. -/
theorem derive_within
    (hentry : ∀ kind ∈ g.kinds, ∀ field ∈ kind.fields, ∀ name ∈ field.type.entry?, name ∈ g.enums)
    (he : e = .none ∨ ∃ version?, e = Solidity.enrichment version?) (hskip : skip.Within skip')
    (hs : derive g skip e = .ok s) :
    ∃ q, derive g skip' e = .ok (s.without skip' q) ∧
      ∀ {roots fs warnings}, s.encodeAll e roots = .ok (fs, warnings) →
        ∃ fs' warnings', (s.without skip' q).encodeAll e roots = .ok (fs', warnings') ∧
          ∀ r ∈ (s.without skip' q).relations, fs'.table? r.name = fs.table? r.name := by
  have huniform : e.Uniform := by
    rcases he with rfl | ⟨version?, rfl⟩
    · exact Enrichment.none_uniform
    · exact Solidity.enrichment_uniform version?
  obtain ⟨q, hs', hb, hbuilt, hsettled⟩ := derive_without huniform hskip hentry hs
  refine ⟨q, hs', ?_⟩
  intro roots fs warnings hfs
  obtain ⟨out, hout, hadd⟩ := encodeAll_eq_ok hfs
  have hnode : ∀ n, ∀ fact ∈ e.ofNode n, fact.1 ∉ s.skipped skip' :=
    fun n fact hfact => enrichment_notMem_skipped huniform hs (Or.inr ⟨n, hfact⟩)
  have honce : s.kept skip' e.once = e.once :=
    kept_eq_self fun fact hfact => enrichment_notMem_skipped huniform hs (Or.inl hfact)
  obtain ⟨out', hout', hfacts⟩ := walkFacts_without hs hb hbuilt hsettled hnode hout
  obtain ⟨fs', hadd', htables⟩ : ∃ fs', (FactSet.ofRelations (s.without skip' q).inputs).addAll
      (s.kept skip' (out.facts ++ e.once)) = .ok fs' ∧ _ := addAll_kept hadd
  rw [kept_append, honce, ← hfacts] at hadd'
  refine ⟨fs', out'.warnings, ?_, ?_⟩
  · unfold encodeAll
    rw [hout', ok_bind, hadd', ok_bind]
    rfl
  · intro r hr
    exact htables r.name (notMem_skipped_of_mem_relations hs hr)

/-- Leaves out the flags of literals, and what a unit is made of. -/
def arithmeticSkip : SkipSet := ⟨["hex"], [("Unit", "parts"), ("Operation", "operator")]⟩

theorem derive_within_arithmetic :
    derive arithmetic .empty .none = .ok arithmeticSchema ∧ SkipSet.empty.Within arithmeticSkip ∧
      arithmeticSchema.encodeAll .none arithmeticForest = .ok (arithmeticFacts, []) ∧
      ∃ q fs warnings,
        derive arithmetic arithmeticSkip .none = .ok (arithmeticSchema.without arithmeticSkip q) ∧
        (arithmeticSchema.without arithmeticSkip q).encodeAll .none arithmeticForest =
          .ok (fs, warnings) ∧
        fs.facts "Operation_operands" = arithmeticFacts.facts "Operation_operands" := by
  have hskip : SkipSet.empty.Within arithmeticSkip := ⟨List.nil_subset _, List.nil_subset _⟩
  obtain ⟨q, hs, hencode⟩ :=
    derive_within namesEnums_arithmetic.declared (Or.inl rfl) hskip derive_arithmetic
  obtain ⟨fs, warnings, hfs, htables⟩ := hencode encodeAll_arithmetic
  refine ⟨derive_arithmetic, hskip, encodeAll_arithmetic, q, fs, warnings, hs, hfs, ?_⟩
  have hkept : ∃ r ∈ arithmeticSchema.inputs, r.name ∉ arithmeticSchema.skipped arithmeticSkip ∧
      r.name = "Operation_operands" := by decide +kernel
  obtain ⟨r, hr, hname, hoperands⟩ := hkept
  have hsame := htables r (mem_relations_without hr hname)
  unfold FactSet.facts
  rw [← hoperands, hsame]

end Schema

end TreeFacts
