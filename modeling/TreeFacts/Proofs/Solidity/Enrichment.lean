import Mathlib.Data.List.Nodup
import TreeFacts.Proofs.Encoding.Element
import TreeFacts.Proofs.Schema.Built
import TreeFacts.Solidity.Enrichment

namespace TreeFacts.Solidity

theorem Kind.mem_all (kind : Kind) : kind ∈ all := by
  cases kind <;> simp [all]

theorem Kind.names_nodup : (all.map name).Nodup := by decide +kernel

theorem Kind.ofName_eq_ok {text : String} {kind : Kind} :
    ofName text = .ok kind ↔ text = kind.name := by
  unfold ofName
  constructor
  · intro h
    split at h
    next found hfound =>
      cases h
      have hname : kind.name = text := by simpa using List.find?_some hfound
      exact hname.symm
    next => cases h
  · rintro rfl
    split
    next found hfound =>
      have hname : found.name = kind.name := by simpa using List.find?_some hfound
      rw [List.inj_on_of_nodup_map names_nodup (mem_all found) (mem_all kind) hname]
    next hnone => simpa using List.find?_eq_none.mp hnone kind (mem_all kind)

/-- The relations of the facts about nodes, on nodes identified by the given types. -/
def relations (expression call function declaration : ColumnType) : List Relation :=
  [⟨"ConstantExpression", [("id", expression)]⟩,
    ⟨"externalCall", [("id", call)]⟩,
    ⟨"FunctionDefinition_signature", [("id", function), ("signature", .symbol)]⟩,
    ⟨"FunctionDefinition_signatureHash", [("id", function), ("hash", .symbol)]⟩,
    ⟨"VariableDeclaration_signature", [("id", declaration), ("signature", .symbol)]⟩,
    ⟨"VariableDeclaration_signatureHash", [("id", declaration), ("hash", .symbol)]⟩,
    ⟨"CompilerVersion", [("major", .number), ("minor", .number), ("patch", .number)]⟩]

theorem declareRelations_eq_ok {r r' : Registry} {rs : List Relation}
    (h : declareRelations r = .ok (rs, r')) :
    ∃ expression call function declaration r₁ r₂ r₃,
      r.identifierType "Expression" = .ok (expression, r₁) ∧
      r₁.identifierType "FunctionCall" = .ok (call, r₂) ∧
      r₂.identifierType "FunctionDefinition" = .ok (function, r₃) ∧
      r₃.identifierType "VariableDeclaration" = .ok (declaration, r') ∧
      rs = relations expression call function declaration := by
  unfold declareRelations at h
  obtain ⟨⟨expression, r₁⟩, h₁, h⟩ := bind_eq_ok.mp h
  obtain ⟨⟨call, r₂⟩, h₂, h⟩ := bind_eq_ok.mp h
  obtain ⟨⟨function, r₃⟩, h₃, h⟩ := bind_eq_ok.mp h
  obtain ⟨⟨declaration, r₄⟩, h₄, h⟩ := bind_eq_ok.mp h
  cases h
  exact ⟨expression, call, function, declaration, r₁, r₂, r₃, h₁, h₂, h₃, h₄, rfl⟩

theorem declareRelations_grows {r r' : Registry} {rs : List Relation}
    (h : declareRelations r = .ok (rs, r')) : r.Grows r' := by
  obtain ⟨_, _, _, _, r₁, r₂, r₃, h₁, h₂, h₃, h₄, -⟩ := declareRelations_eq_ok h
  have hfirst : r.Grows r₁ := .single (.identifier h₁)
  exact ((hfirst.tail (.identifier h₂)).tail (.identifier h₃)).tail (.identifier h₄)

theorem enrichment_builds (version? : Option Version) : (enrichment version?).Builds :=
  fun hb h => hb.grows (declareRelations_grows h)

theorem declareRelations_identifies {r r' : Registry} {rs : List Relation} (hi : r.Identifies)
    (h : declareRelations r = .ok (rs, r')) :
    ∃ expression call function declaration, rs = relations expression call function declaration ∧
      ∀ type ∈ [expression, call, function, declaration], r'.classify type = .ok .nodeId := by
  obtain ⟨expression, call, function, declaration, r₁, r₂, r₃, h₁, h₂, h₃, h₄, rfl⟩ :=
    declareRelations_eq_ok h
  obtain ⟨hi₁, hexpression⟩ := Registry.identifierType_identifies hi h₁
  obtain ⟨hi₂, hcall⟩ := Registry.identifierType_identifies hi₁ h₂
  obtain ⟨hi₃, hfunction⟩ := Registry.identifierType_identifies hi₂ h₃
  obtain ⟨-, hdeclaration⟩ := Registry.identifierType_identifies hi₃ h₄
  have he₄ := Registry.identifierType_extends h₄
  have he₃ := (Registry.identifierType_extends h₃).trans he₄
  have he₂ := (Registry.identifierType_extends h₂).trans he₃
  refine ⟨expression, call, function, declaration, rfl, ?_⟩
  intro type htype
  simp only [List.mem_cons, List.not_mem_nil, or_false] at htype
  rcases htype with rfl | rfl | rfl | rfl
  · exact he₂.classify_eq hexpression
  · exact he₃.classify_eq hcall
  · exact he₄.classify_eq hfunction
  · exact hdeclaration

variable {registry : Registry} {type : ColumnType}

theorem identifier_haveTypes (h : registry.classify type = .ok .nodeId) (n : NodeId)
    (column : String) : HaveTypes registry [.number n] [(column, type)] := by
  simp only [HaveTypes]
  exact ⟨FactValue.hasType_number h (Or.inr (Or.inr rfl)) n, trivial⟩

theorem named_haveTypes (h : registry.classify type = .ok .nodeId) (n : NodeId) (s : String)
    (column name : String) :
    HaveTypes registry [.number n, .symbol s] [(column, type), (name, .symbol)] := by
  have hsymbol := FactValue.hasType_symbol (Registry.classify_symbol registry) s
  simp only [HaveTypes]
  exact ⟨FactValue.hasType_number h (Or.inr (Or.inr rfl)) n, hsymbol, trivial⟩

theorem mem_signatureFacts {n : Node} {kind : String} {signature? : Option String} {fact : Fact}
    (h : fact ∈ signatureFacts n kind signature?) :
    (∃ s, fact = (kind ++ "_signature", [.number n.id, .symbol s])) ∨
      ∃ s, fact = (kind ++ "_signatureHash", [.number n.id, .symbol s]) := by
  unfold signatureFacts at h
  split at h
  next signature =>
    simp only [List.mem_cons, List.not_mem_nil, or_false] at h
    rcases h with rfl | rfl
    · exact Or.inl ⟨signature, rfl⟩
    · exact Or.inr ⟨_, rfl⟩
  next => simp at h

theorem mem_nodeFacts {n : Node} {fact : Fact} (h : fact ∈ nodeFacts n) :
    fact = ("ConstantExpression", [.number n.id]) ∨ fact = ("externalCall", [.number n.id]) ∨
      ∃ kind, (kind = "FunctionDefinition" ∨ kind = "VariableDeclaration") ∧
        ∃ s, fact = (kind ++ "_signature", [.number n.id, .symbol s]) ∨
          fact = (kind ++ "_signatureHash", [.number n.id, .symbol s]) := by
  have hsigned : ∀ kind signature?, (kind = "FunctionDefinition" ∨ kind = "VariableDeclaration") →
      fact ∈ signatureFacts n kind signature? →
      ∃ kind, (kind = "FunctionDefinition" ∨ kind = "VariableDeclaration") ∧
        ∃ s, fact = (kind ++ "_signature", [.number n.id, .symbol s]) ∨
          fact = (kind ++ "_signatureHash", [.number n.id, .symbol s]) := by
    intro kind signature? hkind hmem
    rcases mem_signatureFacts hmem with ⟨s, hs⟩ | ⟨s, hs⟩
    · exact ⟨kind, hkind, s, Or.inl hs⟩
    · exact ⟨kind, hkind, s, Or.inr hs⟩
  unfold nodeFacts at h
  split at h
  next => simp at h
  next kind _ =>
    rcases List.mem_append.mp h with h | h
    · split at h
      next => exact Or.inl (List.mem_singleton.mp h)
      next => simp at h
    · split at h
      next =>
        split at h
        next => exact Or.inr (Or.inl (List.mem_singleton.mp h))
        next => simp at h
      next => exact Or.inr (Or.inr (hsigned _ _ (Or.inl rfl) h))
      next => exact Or.inr (Or.inr (hsigned _ _ (Or.inr rfl) h))
      next => simp at h

theorem nodeFacts_admitted {expression call function declaration : ColumnType}
    (hclass : ∀ type ∈ [expression, call, function, declaration],
      registry.classify type = .ok .nodeId) {n : Node} {fact : Fact} (h : fact ∈ nodeFacts n) :
    ∃ d ∈ relations expression call function declaration, d.Admits registry fact := by
  have hexpression := hclass expression (by simp)
  have hcall := hclass call (by simp)
  have hfunction := hclass function (by simp)
  have hdeclaration := hclass declaration (by simp)
  rcases mem_nodeFacts h with rfl | rfl | ⟨kind, rfl | rfl, s, rfl | rfl⟩
  · exact ⟨_, List.mem_cons_self, rfl, identifier_haveTypes hexpression n.id "id"⟩
  · exact ⟨⟨"externalCall", [("id", call)]⟩, by simp [relations], rfl,
      identifier_haveTypes hcall n.id "id"⟩
  · exact ⟨⟨"FunctionDefinition_signature", [("id", function), ("signature", .symbol)]⟩,
      by simp [relations], rfl, named_haveTypes hfunction n.id s "id" "signature"⟩
  · exact ⟨⟨"FunctionDefinition_signatureHash", [("id", function), ("hash", .symbol)]⟩,
      by simp [relations], rfl, named_haveTypes hfunction n.id s "id" "hash"⟩
  · exact ⟨⟨"VariableDeclaration_signature", [("id", declaration), ("signature", .symbol)]⟩,
      by simp [relations], rfl, named_haveTypes hdeclaration n.id s "id" "signature"⟩
  · exact ⟨⟨"VariableDeclaration_signatureHash", [("id", declaration), ("hash", .symbol)]⟩,
      by simp [relations], rfl, named_haveTypes hdeclaration n.id s "id" "hash"⟩

theorem versionFacts_admitted {expression call function declaration : ColumnType}
    {version? : Option Version} {fact : Fact} (h : fact ∈ versionFacts version?) :
    ∃ d ∈ relations expression call function declaration, d.Admits registry fact := by
  unfold versionFacts at h
  split at h
  next v =>
    have hnumber (m : Int64) : HasType registry (.number m) .number :=
      FactValue.hasType_number (Registry.classify_number registry) (Or.inl rfl) m
    rw [List.mem_singleton.mp h]
    refine ⟨⟨"CompilerVersion", [("major", .number), ("minor", .number), ("patch", .number)]⟩,
      by simp [relations], rfl, ?_⟩
    simp [HaveTypes, hnumber]
  next => simp at h

theorem enrichment_sound (version? : Option Version) : (enrichment version?).Sound where
  declare_extends h := (declareRelations_grows h).extends
  admits hi h fact hfact := by
    obtain ⟨expression, call, function, declaration, rfl, hclass⟩ :=
      declareRelations_identifies hi h
    rcases hfact with hfact | ⟨n, hfact⟩
    · exact versionFacts_admitted hfact
    · exact nodeFacts_admitted hclass hfact

end TreeFacts.Solidity
