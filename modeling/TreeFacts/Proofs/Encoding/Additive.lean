import TreeFacts.Proofs.Encoding.Coverage

namespace TreeFacts

theorem walkAll_append (front back : List Node) :
    walkAll (front ++ back) = walkAll front ++ walkAll back := List.flatMap_append

theorem walkAll_perm {roots roots' : List Node} (h : roots.Perm roots') :
    (walkAll roots).Perm (walkAll roots') := h.flatMap_right Node.walk

namespace Solidity

/-- A version as the tuple that holds it. -/
def versionTuple (v : Version) : Tuple :=
  [v.major, v.minor, v.patch].map fun part => .number part.toUInt64.toInt64

theorem tuplesUnder_versionFacts (version? : Option Version) :
    tuplesUnder "CompilerVersion" (versionFacts version?) = version?.toList.map versionTuple := by
  cases version? with
  | none => rfl
  | some v => rfl

theorem name_of_mem_versionFacts {version? : Option Version} {fact : Fact}
    (h : fact ∈ versionFacts version?) : fact.1 = "CompilerVersion" := by
  unfold versionFacts at h
  split at h
  next => rw [List.mem_singleton.mp h]
  next => cases h

theorem name_ne_of_mem_nodeFacts {n : Node} {fact : Fact} (h : fact ∈ nodeFacts n) :
    fact.1 ≠ "CompilerVersion" := by
  rcases mem_nodeFacts h with rfl | rfl | ⟨kind, rfl | rfl, text, rfl | rfl⟩ <;> simp

end Solidity

namespace Schema

variable {g : Grammar} {skip : SkipSet} {e : Enrichment} {s : Schema} {roots roots' : List Node}
  {fs fs' : FactSet} {warnings warnings' : List Warning}

/-- The fact finds its relation, and has its width. -/
def Takes (s : Schema) (fact : Fact) : Prop :=
  ∃ r tuples, (FactSet.ofRelations s.inputs).table? fact.1 = some (r, tuples) ∧
    fact.2.length = r.arity

/-- The facts of one node, those of an enrichment behind its own. -/
def enrichedFacts (s : Schema) (e : Enrichment) (v : Visit) : List Fact :=
  s.factsOf v ++ e.ofNode v.2

/-- What a node needs to be encoded, whatever stands beside it. -/
structure Accepts (s : Schema) (e : Enrichment) (v : Visit) : Prop where
  id_nonneg : 0 ≤ v.2.id
  encodes : s.Encodes v.2
  takes : ∀ fact ∈ s.enrichedFacts e v, s.Takes fact

def CanEncode (s : Schema) (e : Enrichment) (roots : List Node) : Prop :=
  ∃ fs warnings, s.encodeAll e roots = .ok (fs, warnings)

theorem exists_fieldsFacts {k : KindSchema} {n : Node} {ps : List FieldProjection}
    (h : ∀ p ∈ ps, p.tuples (s.context k p) (.number n.id) (n.value p.field) =
      .ok (s.fieldTuples k n p)) : ∃ out, s.fieldsFacts k n ps = .ok out := by
  induction ps with
  | nil => exact ⟨_, rfl⟩
  | cons p ps ih =>
    obtain ⟨hfirst, hrest⟩ := List.forall_mem_cons.mp h
    obtain ⟨rest, hrest⟩ := ih hrest
    obtain ⟨first, hfirst⟩ : ∃ first, s.fieldFacts k n p = .ok first :=
      ⟨_, bind_eq_ok.mpr ⟨_, hfirst, rfl⟩⟩
    exact ⟨first ++ rest, by rw [fieldsFacts, hfirst, ok_bind, hrest, ok_bind, pure_eq_ok]⟩

theorem exists_visitFacts_iff {v : Visit} :
    (∃ out, s.visitFacts v = .ok out) ↔ s.Encodes v.2 := by
  constructor
  · rintro ⟨out, h⟩
    exact (visitFacts_eq_ok h).1
  · rintro ⟨k, hkind, hconcrete, hfields⟩
    obtain ⟨out, hout⟩ := exists_fieldsFacts hfields
    have hk : (s.kind? v.2.kind).filter (fun k => !k.isAbstract) = some k :=
      Option.filter_eq_some_iff.mpr ⟨hkind, by rw [hconcrete]; rfl⟩
    refine ⟨⟨nodeFacts k v, []⟩ ++ out, ?_⟩
    unfold visitFacts
    rw [hk]
    simp only [hout, ok_bind, pure_eq_ok]

/-- A walk can be encoded when each of its nodes can, and no identifier comes twice. -/
theorem exists_walkFacts_iff {seen : List NodeId} {visits : List Visit} :
    (∃ out, s.walkFacts e seen visits = .ok out) ↔
      (visits.map (·.2.id)).Nodup ∧ (∀ v ∈ visits, 0 ≤ v.2.id ∧ v.2.id ∉ seen) ∧
        ∀ v ∈ visits, s.Encodes v.2 := by
  constructor
  · rintro ⟨out, h⟩
    obtain ⟨hnodup, hids, hencodes, -⟩ := walkFacts_eq_ok h
    exact ⟨hnodup, hids, hencodes⟩
  · rintro ⟨hnodup, hids, hencodes⟩
    induction visits generalizing seen with
    | nil => exact ⟨_, rfl⟩
    | cons v rest ih =>
      obtain ⟨hother, hnodup⟩ := List.nodup_cons.mp hnodup
      obtain ⟨⟨hnonneg, hfresh⟩, hids⟩ := List.forall_mem_cons.mp hids
      obtain ⟨hv, hencodes⟩ := List.forall_mem_cons.mp hencodes
      obtain ⟨own, hown⟩ := exists_visitFacts_iff.mpr hv
      -- The identifier counts as seen in the rest, where it does not come again.
      have hrest : ∀ w ∈ rest, 0 ≤ w.2.id ∧ w.2.id ∉ v.2.id :: seen := by
        intro w hw
        refine ⟨(hids w hw).1, fun hmem => ?_⟩
        rcases List.mem_cons.mp hmem with heq | hmem
        · exact hother (List.mem_map.mpr ⟨w, hw, heq⟩)
        · exact (hids w hw).2 hmem
      obtain ⟨others, hothers⟩ := ih hnodup hrest hencodes
      have hpass : ¬(v.2.id < 0 || seen.contains v.2.id) = true := by
        rw [Bool.or_eq_true, not_or, decide_eq_true_eq, Int64.not_lt]
        exact ⟨hnonneg, by simpa using hfresh⟩
      exact ⟨_, by rw [walkFacts, if_neg hpass, hown, ok_bind, hothers, ok_bind, pure_eq_ok]⟩

theorem exists_addAll_iff {facts : List Fact} :
    (∃ fs, (FactSet.ofRelations s.inputs).addAll facts = .ok fs) ↔ ∀ fact ∈ facts, s.Takes fact :=
  ⟨fun ⟨_, h⟩ => FactSet.fits_of_addAll h, FactSet.addAll_isOk⟩

theorem exists_encodeAll (hnodup : ((walkAll roots).map (·.2.id)).Nodup)
    (haccepts : ∀ v ∈ walkAll roots, s.Accepts e v) (honce : ∀ fact ∈ e.once, s.Takes fact) :
    s.CanEncode e roots := by
  obtain ⟨out, hout⟩ := exists_walkFacts_iff.mpr ⟨hnodup,
    fun v hv => ⟨(haccepts v hv).id_nonneg, List.not_mem_nil⟩, fun v hv => (haccepts v hv).encodes⟩
  have htakes : ∀ fact ∈ out.facts ++ e.once, s.Takes fact := by
    intro fact hfact
    rcases List.mem_append.mp hfact with hfact | hfact
    · rw [(walkFacts_eq_ok hout).2.2.2] at hfact
      obtain ⟨v, hv, hfact⟩ := List.mem_flatMap.mp hfact
      exact (haccepts v hv).takes fact hfact
    · exact honce fact hfact
  obtain ⟨fs, hfs⟩ := exists_addAll_iff.mpr htakes
  refine ⟨fs, out.warnings, ?_⟩
  rw [encodeAll, hout, ok_bind, hfs, ok_bind, pure_eq_ok]

theorem canEncode_iff : s.CanEncode e roots ↔ ((walkAll roots).map (·.2.id)).Nodup ∧
    (∀ v ∈ walkAll roots, s.Accepts e v) ∧ ∀ fact ∈ e.once, s.Takes fact := by
  constructor
  · rintro ⟨fs, warnings, h⟩
    obtain ⟨out, hout, hadd⟩ := encodeAll_eq_ok h
    obtain ⟨hnodup, hids, hencodes, hfacts⟩ := walkFacts_eq_ok hout
    have htakes := exists_addAll_iff.mp ⟨fs, hadd⟩
    refine ⟨hnodup, fun v hv => ⟨(hids v hv).1, hencodes v hv, fun fact hfact => ?_⟩,
      fun fact hfact => htakes fact (List.mem_append_right _ hfact)⟩
    refine htakes fact (List.mem_append_left _ ?_)
    rw [hfacts]
    exact List.mem_flatMap.mpr ⟨v, hv, hfact⟩
  · rintro ⟨hnodup, haccepts, honce⟩
    exact exists_encodeAll hnodup haccepts honce

/-- No node of one forest has the identifier of a node of the other. -/
def Apart (front back : List Node) : Prop :=
  ∀ v ∈ walkAll front, ∀ w ∈ walkAll back, v.2.id ≠ w.2.id

theorem canEncode_append {front back : List Node} : s.CanEncode e (front ++ back) ↔
    s.CanEncode e front ∧ s.CanEncode e back ∧ Apart front back := by
  have hapart : Apart front back ↔ ∀ a ∈ (walkAll front).map (·.2.id),
      ∀ b ∈ (walkAll back).map (·.2.id), a ≠ b := by
    simp only [Apart, List.forall_mem_map]
  rw [canEncode_iff, canEncode_iff, canEncode_iff, walkAll_append, List.map_append,
    List.nodup_append, List.forall_mem_append, hapart]
  constructor
  · rintro ⟨⟨hfront, hback, hne⟩, ⟨hfirst, hrest⟩, honce⟩
    exact ⟨⟨hfront, hfirst, honce⟩, ⟨hback, hrest, honce⟩, hne⟩
  · rintro ⟨⟨hfront, hfirst, honce⟩, ⟨hback, hrest, -⟩, hne⟩
    exact ⟨⟨hfront, hback, hne⟩, ⟨hfirst, hrest⟩, honce⟩

theorem canEncode_perm (h : roots.Perm roots') : s.CanEncode e roots ↔ s.CanEncode e roots' := by
  have hwalk := walkAll_perm h
  rw [canEncode_iff, canEncode_iff, (hwalk.map _).nodup_iff]
  simp only [hwalk.mem_iff]

/-- What a relation holds is what each node has in it, in the order of the walk, and what is there
once for the whole. -/
theorem facts_of_encodeAll (h : derive g skip e = .ok s)
    (hfs : s.encodeAll e roots = .ok (fs, warnings)) {r : Relation} (hr : r ∈ s.inputs) :
    fs.facts r.name = .ok ((walkAll roots).flatMap
      (fun v => tuplesUnder r.name (s.enrichedFacts e v)) ++ tuplesUnder r.name e.once) := by
  obtain ⟨out, hout, hadd⟩ := encodeAll_eq_ok hfs
  have hfacts : out.facts = (walkAll roots).flatMap (s.enrichedFacts e) :=
    (walkFacts_eq_ok hout).2.2.2
  rw [FactSet.facts_of_table? (table?_of_addAll_inputs h hadd hr), tuplesUnder_append, hfacts,
    tuplesUnder_flatMap]

theorem facts_append (h : derive g skip e = .ok s) {front back : List Node} {fs₁ fs₂ : FactSet}
    {warnings₁ warnings₂ : List Warning}
    (hfs : s.encodeAll e (front ++ back) = .ok (fs, warnings))
    (hfs₁ : s.encodeAll e front = .ok (fs₁, warnings₁))
    (hfs₂ : s.encodeAll e back = .ok (fs₂, warnings₂)) {r : Relation} (hr : r ∈ s.inputs)
    (honce : tuplesUnder r.name e.once = []) :
    ∃ ts₁ ts₂, fs₁.facts r.name = .ok ts₁ ∧ fs₂.facts r.name = .ok ts₂ ∧
      fs.facts r.name = .ok (ts₁ ++ ts₂) := by
  refine ⟨_, _, facts_of_encodeAll h hfs₁ hr, facts_of_encodeAll h hfs₂ hr, ?_⟩
  rw [facts_of_encodeAll h hfs hr, honce, walkAll_append, List.flatMap_append, List.append_nil,
    List.append_nil, List.append_nil]

theorem facts_perm (h : derive g skip e = .ok s) (hperm : roots.Perm roots')
    (hfs : s.encodeAll e roots = .ok (fs, warnings))
    (hfs' : s.encodeAll e roots' = .ok (fs', warnings')) {r : Relation} (hr : r ∈ s.inputs) :
    ∃ ts ts', fs.facts r.name = .ok ts ∧ fs'.facts r.name = .ok ts' ∧ ts.Perm ts' := by
  refine ⟨_, _, facts_of_encodeAll h hfs hr, facts_of_encodeAll h hfs' hr, ?_⟩
  exact ((walkAll_perm hperm).flatMap_right _).append_right _

/-- A node has nothing of its own in the relations that an enrichment declares. -/
theorem tuplesUnder_factsOf_derived (h : derive g skip e = .ok s) {derived : List Relation}
    (hinputs : s.inputs = [parentRelation, srcRelation] ++ s.kinds.flatMap KindSchema.inputs ++
      derived) {r : Relation} (hr : r ∈ derived) {v : Visit} (hv : s.Encodes v.2) :
    tuplesUnder r.name (s.factsOf v) = [] := by
  obtain ⟨k, hkind, hconcrete, -⟩ := hv
  have hk := ((kind?_eq_some h).mp hkind).1
  obtain ⟨_, _, _, _, -, -, -, -, -, hn, -⟩ := derive_eq_ok h
  rw [hinputs, List.map_append, List.nodup_append] at hn
  have hother : ∀ d ∈ [parentRelation, srcRelation] ++ s.kinds.flatMap KindSchema.inputs,
      d.name ≠ r.name :=
    fun d hd => hn.2.2 _ (List.mem_map_of_mem hd) _ (List.mem_map_of_mem hr)
  have hparent : parentRelation.name ≠ r.name := hother _ (by simp)
  have hsrc : srcRelation.name ≠ r.name := hother _ (by simp)
  have hown : ∀ name ∈ k.names, name ≠ r.name := by
    intro name hname
    obtain ⟨d, hd, rfl⟩ := List.mem_map.mp hname
    exact hother d (List.mem_append_right _ (List.mem_flatMap.mpr ⟨k, hk, hd⟩))
  rw [KindSchema.names_eq hconcrete] at hown
  have hfields : r.name ∉ k.fields.map (·.relation) :=
    fun hmem => hown _ (List.mem_cons_of_mem _ hmem) rfl
  rw [factsOf, hkind, Option.map_some, Option.getD_some, tuplesUnder_kindFacts_of_notMem hfields,
    tuplesUnder_nodeFacts, if_neg (hown _ List.mem_cons_self), if_neg hsrc, if_neg hparent]
  rfl

/-- The version of a compiler is there once, however many trees there are. -/
theorem facts_version {version? : Option Solidity.Version}
    (h : derive g skip (Solidity.enrichment version?) = .ok s)
    (hfs : s.encodeAll (Solidity.enrichment version?) roots = .ok (fs, warnings)) :
    fs.facts "CompilerVersion" = .ok (version?.toList.map Solidity.versionTuple) := by
  obtain ⟨_, _, _, derived, -, -, -, hderived, hinputs, -⟩ := derive_eq_ok h
  obtain ⟨_, _, _, _, _, _, _, -, -, -, -, hrelations⟩ :=
    Solidity.declareRelations_eq_ok hderived
  obtain ⟨r, hr, hname⟩ : ∃ r ∈ derived, r.name = "CompilerVersion" := by
    rw [hrelations]
    simp [Solidity.relations]
  have hmem : r ∈ s.inputs := by
    rw [hinputs]
    exact List.mem_append_right _ hr
  have hnone : (walkAll roots).flatMap (fun v =>
      tuplesUnder r.name (s.enrichedFacts (Solidity.enrichment version?) v)) = [] := by
    refine List.flatMap_eq_nil_iff.mpr fun v hv => ?_
    have hencodes := ((canEncode_iff.mp ⟨fs, warnings, hfs⟩).2.1 v hv).encodes
    have hother : tuplesUnder r.name ((Solidity.enrichment version?).ofNode v.2) = [] := by
      rw [hname]
      exact tuplesUnder_eq_nil fun fact hfact => Solidity.name_ne_of_mem_nodeFacts hfact
    rw [enrichedFacts, tuplesUnder_append, tuplesUnder_factsOf_derived h hinputs hr hencodes,
      hother, List.nil_append]
  have hall := facts_of_encodeAll h hfs hmem
  rw [hnone, List.nil_append, hname] at hall
  exact hall.trans (congrArg _ (Solidity.tuplesUnder_versionFacts version?))

/-- What an enrichment gives once for the whole is the version alone. -/
theorem tuplesUnder_once (he : e = .none ∨ ∃ version?, e = Solidity.enrichment version?)
    {name : String} (hname : name ≠ "CompilerVersion" ∨ e = .none) :
    tuplesUnder name e.once = [] := by
  refine tuplesUnder_eq_nil fun fact hfact heq => ?_
  rcases he with rfl | ⟨version?, rfl⟩
  · cases hfact
  · have hversion : fact.1 = "CompilerVersion" := Solidity.name_of_mem_versionFacts hfact
    rcases hname with hname | hnone
    · exact hname (heq.symm.trans hversion)
    · rw [hnone] at hfact
      cases hfact

/-- Forests are encoded together exactly when each of them can be and they share no identifier. The
tuples of the one then stand before those of the other, and the order of the trees tells only in
the order of tuples. -/
theorem encodeAll_append (he : e = .none ∨ ∃ version?, e = Solidity.enrichment version?)
    (h : derive g skip e = .ok s) :
    (∀ front back, s.CanEncode e (front ++ back) ↔
      s.CanEncode e front ∧ s.CanEncode e back ∧ Apart front back) ∧
    (∀ front back fs fs₁ fs₂ warnings warnings₁ warnings₂,
      s.encodeAll e (front ++ back) = .ok (fs, warnings) →
      s.encodeAll e front = .ok (fs₁, warnings₁) → s.encodeAll e back = .ok (fs₂, warnings₂) →
      ∀ r ∈ s.inputs, r.name ≠ "CompilerVersion" ∨ e = .none →
        ∃ ts₁ ts₂, fs₁.facts r.name = .ok ts₁ ∧ fs₂.facts r.name = .ok ts₂ ∧
          fs.facts r.name = .ok (ts₁ ++ ts₂)) ∧
    (∀ version?, e = Solidity.enrichment version? →
      ∀ roots fs warnings, s.encodeAll e roots = .ok (fs, warnings) →
        fs.facts "CompilerVersion" = .ok (version?.toList.map Solidity.versionTuple)) ∧
    ∀ roots roots', roots.Perm roots' → (s.CanEncode e roots ↔ s.CanEncode e roots') ∧
      ∀ fs fs' warnings warnings', s.encodeAll e roots = .ok (fs, warnings) →
        s.encodeAll e roots' = .ok (fs', warnings') →
        ∀ r ∈ s.inputs, ∃ ts ts', fs.facts r.name = .ok ts ∧ fs'.facts r.name = .ok ts' ∧
          ts.Perm ts' := by
  refine ⟨fun front back => canEncode_append, ?_, ?_, fun roots roots' hperm => ?_⟩
  · intro front back fs fs₁ fs₂ warnings warnings₁ warnings₂ hfs hfs₁ hfs₂ r hr hname
    exact facts_append h hfs hfs₁ hfs₂ hr (tuplesUnder_once he hname)
  · rintro version? rfl roots fs warnings hfs
    exact facts_version h hfs
  · refine ⟨canEncode_perm hperm, ?_⟩
    intro fs fs' warnings warnings' hfs hfs' r hr
    exact facts_perm h hperm hfs hfs' hr

/-- Literals and calls, with the kinds that the enrichment speaks of. -/
def calls : Grammar :=
  ⟨"Node", [],
    [.abstract "Expression" "Node",
      .concrete "Literal" "Expression" [⟨"value", .scalar, .number⟩],
      .concrete "FunctionCall" "Expression" [⟨"arguments", .array, .node "Expression"⟩],
      .concrete "FunctionDefinition" "Node" [],
      .concrete "VariableDeclaration" "Node" []]⟩

def callsEnrichment : Enrichment := Solidity.enrichment (some ⟨0, 8, 20⟩)

def callsSchema : Schema :=
  (derive calls .empty callsEnrichment).toOption.getD ⟨"", .empty, [], [], [], []⟩

def callsFacts (roots : List Node) : FactSet :=
  ((callsSchema.encodeAll callsEnrichment roots).toOption.map (·.1)).getD .empty

def literal (id : NodeId) : Node := .mk id "0:1:0" "Literal" [("value", .int 7)]

def call (id : NodeId) (arguments : List Node) : Node :=
  .mk id "0:4:0" "FunctionCall" [("arguments", .list (arguments.map .node))]

/-- Two forests that share no identifier, in both of which a literal is constant. -/
theorem encodeAll_append_calls :
    derive calls .empty callsEnrichment = .ok callsSchema ∧
      Apart [literal 1] [call 2 [literal 3]] ∧
      (callsFacts [literal 1]).facts "ConstantExpression" = .ok [[.number 1]] ∧
      (callsFacts [call 2 [literal 3]]).facts "ConstantExpression" = .ok [[.number 3]] ∧
      (callsFacts [literal 1, call 2 [literal 3]]).facts "ConstantExpression" =
        .ok [[.number 1], [.number 3]] ∧
      (callsFacts [literal 1, call 2 [literal 3]]).facts "CompilerVersion" =
        .ok [[.number 0, .number 8, .number 20]] := by
  have hderive : derive calls .empty callsEnrichment = .ok callsSchema := by decide +kernel
  obtain ⟨hfront, hback, hall, hone, hthree⟩ :
      callsSchema.encodeAll callsEnrichment [literal 1] = .ok (callsFacts [literal 1], []) ∧
      callsSchema.encodeAll callsEnrichment [call 2 [literal 3]] =
        .ok (callsFacts [call 2 [literal 3]], []) ∧
      callsSchema.encodeAll callsEnrichment [literal 1, call 2 [literal 3]] =
        .ok (callsFacts [literal 1, call 2 [literal 3]], []) ∧
      (callsFacts [literal 1]).facts "ConstantExpression" = .ok [[.number 1]] ∧
      (callsFacts [call 2 [literal 3]]).facts "ConstantExpression" = .ok [[.number 3]] := by
    decide +kernel
  have he : callsEnrichment = .none ∨ ∃ version?, callsEnrichment = Solidity.enrichment version? :=
    Or.inr ⟨_, rfl⟩
  obtain ⟨happend, hfacts, hversion, -⟩ := encodeAll_append he hderive
  obtain ⟨r, hr, hname⟩ : ∃ r ∈ callsSchema.inputs, r.name = "ConstantExpression" := by
    decide +kernel
  have hconstant := hfacts [literal 1] _ _ _ _ _ _ _ hall hfront hback r hr
    (Or.inl (by rw [hname]; decide))
  rw [hname] at hconstant
  obtain ⟨ts₁, ts₂, hts₁, hts₂, hts⟩ := hconstant
  cases hone.symm.trans hts₁
  cases hthree.symm.trans hts₂
  have hapart : Apart [literal 1] [call 2 [literal 3]] :=
    ((happend [literal 1] [call 2 [literal 3]]).mp ⟨_, _, hall⟩).2.2
  exact ⟨hderive, hapart, hone, hthree, hts, hversion _ rfl _ _ _ hall⟩

end Schema

end TreeFacts
