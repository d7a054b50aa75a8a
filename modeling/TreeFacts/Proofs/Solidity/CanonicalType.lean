import TreeFacts.Proofs.Fact.Set
import TreeFacts.Proofs.Runs
import TreeFacts.Proofs.Solidity.Enrichment
import TreeFacts.Proofs.Solidity.ParameterType

namespace TreeFacts

theorem Text.dropBack?_append (front back : List Char) :
    dropBack? back (front ++ back) = some front := by
  have hback : back.isSuffixOf (front ++ back) = true :=
    List.isSuffixOf_iff_suffix.mpr (List.suffix_append front back)
  rw [dropBack?, if_pos hback, List.length_append, Nat.add_sub_cancel, List.take_left]

theorem Text.dropBack?_eq_none {back cs : List Char} (h : ¬back <:+ cs) :
    dropBack? back cs = none := by
  rw [dropBack?, if_neg (mt List.isSuffixOf_iff_suffix.mp h)]

namespace Solidity

namespace DataLocation

theorem dropBack?_mark (l m : DataLocation) (front : List Char) :
    Text.dropBack? l.mark (front ++ m.mark) = if l = m then some front else none := by
  split
  next h =>
    rw [h]
    exact Text.dropBack?_append front m.mark
  next h => exact Text.dropBack?_eq_none (mt mark_suffix_iff.mp h)

theorem locations_eq : locations.map String.toList =
    [storageRef, storagePointer, memory, calldata, storage].map mark := by decide

end DataLocation

variable {l : DataLocation} {cs front : List Char} {c : Char}

theorem dropLocation_append_mark (front : List Char) (l : DataLocation) :
    dropLocation (front ++ l.mark) = front := by
  rw [dropLocation, DataLocation.locations_eq]
  cases l <;> simp [List.findSome?, DataLocation.dropBack?_mark]

theorem dropLocation_eq_self (h : ∀ l : DataLocation, ¬l.mark <:+ cs) : dropLocation cs = cs := by
  rw [dropLocation, DataLocation.locations_eq]
  simp [List.findSome?, Text.dropBack?_eq_none (h _)]

theorem isPrefixOf_of_notMem (hc : c ∈ front) (h : c ∉ cs) : ¬front.isPrefixOf cs = true :=
  fun hbegins => h ((List.isPrefixOf_iff_prefix.mp hbegins).subset hc)

/-- A word alone is its own name. -/
theorem canonicalBase_word (h : ' ' ∉ cs) : canonicalBase cs = cs := by
  have hother : ¬("contract ".toList.isPrefixOf cs = true ∨ cs = "address payable".toList) := by
    rintro (hbegins | rfl)
    · exact isPrefixOf_of_notMem (by decide) h hbegins
    · exact h (by decide)
  have henum : ¬"enum ".toList.isPrefixOf cs = true := isPrefixOf_of_notMem (by decide) h
  have hstruct : ¬"struct ".toList.isPrefixOf cs = true := isPrefixOf_of_notMem (by decide) h
  have hfunction : ¬"function ".toList.isPrefixOf cs = true := isPrefixOf_of_notMem (by decide) h
  rw [canonicalBase, if_neg hother, if_neg henum, Text.dropFront?, if_neg hstruct]
  exact if_neg hfunction

theorem isPrefixOf_of_head_ne {d : Char} (hfront : front.head? = some c) (hcs : cs.head? = some d)
    (hne : c ≠ d) : ¬front.isPrefixOf cs = true := by
  intro hbegins
  obtain ⟨rest, rfl⟩ := List.isPrefixOf_iff_prefix.mp hbegins
  rw [List.head?_append, hfront] at hcs
  exact hne (Option.some.inj hcs)

theorem head?_append_of_head (hfront : front.head? = some c) (rest : List Char) :
    (front ++ rest).head? = some c := by rw [List.head?_append, hfront, Option.some_or]

/-- What begins with another letter is no contract and no address. -/
theorem not_address_of_head {d : Char} (hcs : cs.head? = some d) (hc : 'c' ≠ d) (ha : 'a' ≠ d) :
    ¬("contract ".toList.isPrefixOf cs = true ∨ cs = "address payable".toList) := by
  rintro (hbegins | rfl)
  · exact isPrefixOf_of_head_ne (by decide) hcs hc hbegins
  · have hhead : "address payable".toList.head? = some 'a' := by decide
    exact ha (Option.some.inj (hhead.symm.trans hcs))

theorem canonicalBase_function (rest : List Char) :
    canonicalBase (functionHead ++ rest) = "function".toList := by
  have hsplit : functionHead ++ rest = "function ".toList ++ ('(' :: rest) := by
    have hhead : functionHead = "function ".toList ++ ['('] := by decide
    rw [hhead, List.append_assoc, List.singleton_append]
  have hhead : (functionHead ++ rest).head? = some 'f' := head?_append_of_head (by decide) rest
  have henum : ¬"enum ".toList.isPrefixOf (functionHead ++ rest) = true :=
    isPrefixOf_of_head_ne (by decide) hhead (by decide : 'e' ≠ 'f')
  have hstruct : ¬"struct ".toList.isPrefixOf (functionHead ++ rest) = true :=
    isPrefixOf_of_head_ne (by decide) hhead (by decide : 's' ≠ 'f')
  have hfunction : "function ".toList.isPrefixOf (functionHead ++ rest) = true := by
    rw [List.isPrefixOf_iff_prefix, hsplit]
    exact List.prefix_append _ _
  rw [canonicalBase, if_neg (not_address_of_head hhead (by decide) (by decide)), if_neg henum,
    Text.dropFront?, if_neg hstruct]
  exact if_pos hfunction

theorem canonicalBase_declared (sort : DeclaredSort) (path : Path) :
    canonicalBase (TypeText.declared sort path).chars = (BaseType.declared sort path).abiChars := by
  have hsplit : (TypeText.declared sort path).chars =
      (sort.keyword.toList ++ [' ']) ++ path.chars := by
    rw [TypeText.chars, List.append_assoc, List.singleton_append]
  rw [hsplit]
  cases sort with
  | contract =>
    have hfront : DeclaredSort.contract.keyword.toList ++ [' '] = "contract ".toList := by decide
    have hcontract : "contract ".toList.isPrefixOf ("contract ".toList ++ path.chars) = true :=
      List.isPrefixOf_iff_prefix.mpr (List.prefix_append _ _)
    rw [hfront, canonicalBase, if_pos (Or.inl hcontract)]
    rfl
  | enumeration =>
    have hfront : DeclaredSort.enumeration.keyword.toList ++ [' '] = "enum ".toList := by decide
    have hhead : ("enum ".toList ++ path.chars).head? = some 'e' :=
      head?_append_of_head (by decide) path.chars
    have henum : "enum ".toList.isPrefixOf ("enum ".toList ++ path.chars) = true :=
      List.isPrefixOf_iff_prefix.mpr (List.prefix_append _ _)
    rw [hfront, canonicalBase, if_neg (not_address_of_head hhead (by decide) (by decide)),
      if_pos henum]
    rfl
  | struct =>
    have hfront : DeclaredSort.struct.keyword.toList ++ [' '] = "struct ".toList := by decide
    have hhead : ("struct ".toList ++ path.chars).head? = some 's' :=
      head?_append_of_head (by decide) path.chars
    have henum : ¬"enum ".toList.isPrefixOf ("struct ".toList ++ path.chars) = true :=
      isPrefixOf_of_head_ne (by decide) hhead (by decide : 'e' ≠ 's')
    rw [hfront, canonicalBase, if_neg (not_address_of_head hhead (by decide) (by decide)),
      if_neg henum, Text.dropFront?_append]
    rfl

theorem canonicalBase_chars (base : BaseType) : canonicalBase base.chars = base.abiChars := by
  cases base with
  | elementary name => exact canonicalBase_word (name.notMem (by decide))
  | payableAddress => decide
  | declared sort path => exact canonicalBase_declared sort path
  | function parameters words results =>
    obtain ⟨rest, hrest⟩ := BaseType.chars_function parameters words results
    rw [hrest, canonicalBase_function]
    rfl

/-- The type of the text of the base, in front of what follows from its first bracket on. -/
theorem canonical_split {front back : List Char} (hfront : '[' ∉ front)
    (hback : ∀ c ∈ back.head?, c = '[') :
    canonicalBase ((front ++ back).takeWhile (· ≠ '[')) ++ (front ++ back).dropWhile (· ≠ '[') =
      canonicalBase front ++ back := by
  have hkeep : ∀ c ∈ front, (decide (c ≠ '[')) = true := by
    intro c hc
    refine decide_eq_true fun heq => ?_
    exact hfront (heq ▸ hc)
  have hstop : ∀ c ∈ back.head?, (decide (c ≠ '[')) = false := by
    intro c hc
    exact decide_eq_false fun hne => hne (hback c hc)
  rw [Text.takeWhile_run hkeep hstop, Text.dropWhile_run hkeep hstop]

theorem dropLocation_chars {t : ParameterType} (h : ¬t.NamesLocation) :
    dropLocation t.chars = t.base.chars ++ t.dimensionsChars := by
  rw [ParameterType.chars]
  cases hlocation : t.location with
  | some l => exact dropLocation_append_mark _ l
  | none =>
    have hnone : ((none : Option DataLocation).map DataLocation.mark).getD [] = [] := rfl
    rw [hnone, List.append_nil]
    exact dropLocation_eq_self fun l => ParameterType.not_mark_suffix hlocation h

theorem canonicalType_text (t : ParameterType) : (canonicalType t.text).toList =
    canonicalBase ((dropLocation t.chars).takeWhile (· ≠ '[')) ++
      (dropLocation t.chars).dropWhile (· ≠ '[') := by
  rw [canonicalType, String.toList_ofList, t.toList_text, t.trim_chars]

/-- The location is taken off the declared type, and its keyword stays. -/
theorem canonicalType_ne_of_namesLocation {t : ParameterType} (h : t.NamesLocation) :
    (canonicalType t.text).toList ≠ t.base.abiChars ++ t.dimensionsChars := by
  obtain ⟨hdimensions, hlocation, sort, path, hbase, l, hpath⟩ := h
  have hchars : t.chars = sort.keyword.toList ++ l.mark := by
    rw [ParameterType.chars, ParameterType.dimensionsChars, hdimensions, hlocation, hbase,
      BaseType.chars, TypeText.chars, hpath]
    simp [DataLocation.mark]
  have hkeyword : (canonicalType t.text).toList = sort.keyword.toList := by
    rw [canonicalType_text, hchars, dropLocation_append_mark]
    cases sort <;> decide
  rw [hkeyword, ParameterType.dimensionsChars, hdimensions, hbase, List.flatMap_nil,
    List.append_nil]
  cases sort with
  | contract =>
    have habi : (BaseType.declared .contract path).abiChars = "address".toList := rfl
    rw [habi]
    decide
  | enumeration =>
    have habi : (BaseType.declared .enumeration path).abiChars = "uint8".toList := rfl
    rw [habi]
    decide
  | struct =>
    have habi : (BaseType.declared .struct path).abiChars = path.chars := rfl
    rw [habi, hpath]
    cases l <;> decide

/-- A type is given its name in the interface but for two cases: a function type with an array in
it, and a declared type that has the name of a location and nothing behind it. -/
theorem canonicalType_eq_iff (t : ParameterType) :
    canonicalType t.text = t.abiName ↔ '[' ∉ t.base.chars ∧ ¬t.NamesLocation := by
  rw [← String.toList_inj, ParameterType.abiName, String.toList_ofList]
  by_cases hlocation : t.NamesLocation
  · exact iff_of_false (canonicalType_ne_of_namesLocation hlocation) fun h => h.2 hlocation
  rw [canonicalType_text, dropLocation_chars hlocation]
  by_cases hbracket : '[' ∈ t.base.chars
  · refine iff_of_false ?_ fun h => h.1 hbracket
    obtain ⟨front, back, hfront, hbase, habi⟩ := BaseType.exists_of_bracket_mem hbracket
    rw [hbase, habi, List.append_assoc, canonical_split hfront (by simp), canonicalBase_function]
    intro heq
    have hlength := congrArg List.length (List.append_cancel_left heq)
    simp only [List.length_append, List.length_cons] at hlength
    omega
  · refine iff_of_true ?_ ⟨hbracket, hlocation⟩
    rw [canonical_split hbracket t.head?_dimensionsChars,
      canonicalBase_chars]

/-- A function that is called from outside, with its name and the types of its parameters. -/
structure DeclaresFunction (n : Node) (name : String) (types : List ParameterType) : Prop where
  kind : n.kind = "FunctionDefinition"
  isFunction : n.text? "kind" = some "function"
  visibility : n.text? "visibility" = some "public" ∨ n.text? "visibility" = some "external"
  name_eq : n.name? = some name
  name_ne : name ≠ ""
  parameters : ∃ list nodes, n.child? "parameters" = some list ∧
    list.field? "parameters" = some (.list (nodes.map .node)) ∧
    List.Forall₂ (fun p t => p.text? "typeString" = some (ParameterType.text t)) nodes types

theorem mapM_typeStrings {list : Node} {nodes : List Node} {types : List ParameterType}
    (hnodes : list.field? "parameters" = some (.list (nodes.map .node)))
    (h : List.Forall₂ (fun p t => p.text? "typeString" = some (ParameterType.text t))
      nodes types) :
    (list.listed "parameters").mapM (fun p? => p?.bind fun p => p.text? "typeString") =
      some (types.map ParameterType.text) := by
  have hlisted : list.listed "parameters" = (nodes.map Value.node).map Value.node? := by
    rw [Node.listed, hnodes]
  rw [hlisted]
  clear hnodes hlisted
  induction h with
  | nil => rfl
  | cons hp _ ih =>
    rw [List.map_cons, List.map_cons, List.mapM_cons, ih]
    simp [Value.node?, hp]

theorem functionSignature?_eq {n : Node} {name : String} {types : List ParameterType}
    (h : DeclaresFunction n name types) : functionSignature? n =
      some (signature name (types.map fun t => canonicalType t.text)) := by
  obtain ⟨list, nodes, hlist, hnodes, htypes⟩ := h.parameters
  have htexts := mapM_typeStrings hnodes htypes
  have hvisible : ∃ visibility, n.text? "visibility" = some visibility ∧
      (visibility = "public" ∨ visibility = "external") :=
    h.visibility.elim (fun hv => ⟨_, hv, Or.inl rfl⟩) fun hv => ⟨_, hv, Or.inr rfl⟩
  obtain ⟨visibility, hvisibility, hpublic⟩ := hvisible
  refine Option.bind_eq_some_iff.mpr ⟨(), if_pos h.isFunction, ?_⟩
  refine Option.bind_eq_some_iff.mpr ⟨visibility, hvisibility, ?_⟩
  refine Option.bind_eq_some_iff.mpr ⟨(), if_pos hpublic, ?_⟩
  refine Option.bind_eq_some_iff.mpr ⟨name, h.name_eq, ?_⟩
  refine Option.bind_eq_some_iff.mpr ⟨(), if_pos h.name_ne, ?_⟩
  refine Option.bind_eq_some_iff.mpr ⟨list, hlist, ?_⟩
  refine Option.bind_eq_some_iff.mpr ⟨_, htexts, ?_⟩
  rw [List.map_map]
  rfl

theorem tuplesUnder_signature {n : Node} {name : String} {types : List ParameterType}
    (h : DeclaresFunction n name types) :
    tuplesUnder "FunctionDefinition_signature" (nodeFacts n) =
      [[.number n.id, .symbol (signature name (types.map fun t => canonicalType t.text))]] := by
  have hkind : Kind.ofName n.kind = .ok .functionDefinition := Kind.ofName_eq_ok.mpr h.kind
  have hexpression : Kind.functionDefinition.isExpression = false := by decide
  rw [nodeFacts, hkind]
  simp only [hexpression, Bool.false_and, Bool.false_eq_true, if_false, List.nil_append,
    functionSignature?_eq h, signatureFacts, tuplesUnder_cons]
  rw [if_pos (by decide), if_neg (by decide)]
  rfl

/-- What a compiler's type strings become in the interface, and so in signatures. The name of a type
is made from its parts, but for a function type with an array in it, and for a declared type that
has the name of a location and nothing behind it. -/
theorem canonicalType_signature (version? : Option Version) :
    (∀ t : ParameterType,
      canonicalType t.text = t.abiName ↔ '[' ∉ t.base.chars ∧ ¬t.NamesLocation) ∧
    ∀ (n : Node) (name : String) (types : List ParameterType), DeclaresFunction n name types →
      (∀ t ∈ types, '[' ∉ t.base.chars ∧ ¬t.NamesLocation) →
      tuplesUnder "FunctionDefinition_signature" ((enrichment version?).ofNode n) =
        [[.number n.id, .symbol (name ++ "(" ++ ",".intercalate (types.map (·.abiName)) ++ ")")]] := by
  refine ⟨canonicalType_eq_iff, fun n name types hn htypes => ?_⟩
  have hnames : types.map (fun t => canonicalType t.text) = types.map (·.abiName) :=
    List.map_congr_left fun t ht => (canonicalType_eq_iff t).mpr (htypes t ht)
  rw [← hnames]
  exact tuplesUnder_signature hn

/-- A list of rows, a contract, data of a library, and a function to be called back. -/
def depositTypes : List ParameterType :=
  [⟨.elementary ⟨"uint256", by decide, by decide⟩, [some 3, none], some .memory⟩,
    ⟨.declared .contract ⟨⟨"Vault", by decide⟩, []⟩, [], none⟩,
    ⟨.declared .struct ⟨⟨"Registry", by decide⟩, [⟨"Entry", by decide⟩]⟩, [some 2],
      some .storagePointer⟩,
    ⟨.function [.plain "uint256"] [.external] [.located (.plain "bytes") .memory], [], none⟩]

def depositFunction : Node :=
  .mk 1 "0:40:0" "FunctionDefinition"
    [("kind", .text "function"), ("name", .text "deposit"),
      ("parameters", .node (.mk 2 "9:20:0" "ParameterList"
        [("parameters", .list (depositTypes.map fun t =>
          .node (.mk 3 "9:20:0" "VariableDeclaration" [("typeString", .text t.text)])))])),
      ("visibility", .text "external")]

theorem canonicalType_signature_deposit :
    depositTypes.map (·.text) = ["uint256[3][] memory", "contract Vault",
        "struct Registry.Entry[2] storage pointer",
        "function (uint256) external returns (bytes memory)"] ∧
      DeclaresFunction depositFunction "deposit" depositTypes ∧
      (∀ t ∈ depositTypes, '[' ∉ t.base.chars ∧ ¬t.NamesLocation) ∧
      tuplesUnder "FunctionDefinition_signature" ((enrichment none).ofNode depositFunction) =
        [[.number 1, .symbol "deposit(uint256[3][],address,Registry.Entry[2],function)"]] := by
  have hdeclares : DeclaresFunction depositFunction "deposit" depositTypes :=
    ⟨rfl, rfl, Or.inr rfl, rfl, by decide,
      _, _, rfl, rfl, .cons rfl (.cons rfl (.cons rfl (.cons rfl .nil)))⟩
  have htypes : ∀ t ∈ depositTypes, '[' ∉ t.base.chars ∧ ¬t.NamesLocation := by
    simp only [depositTypes, List.forall_mem_cons]
    refine ⟨⟨by decide, fun h => nomatch h.1⟩, ⟨by decide, ?_⟩, ⟨by decide, fun h => nomatch h.1⟩,
      ⟨by decide +kernel, ?_⟩, List.forall_mem_nil _⟩
    · rintro ⟨-, -, sort, path, hbase, l, hpath⟩
      cases hbase
      cases l <;> exact absurd hpath (by decide)
    · rintro ⟨-, -, sort, path, hbase, -⟩
      cases hbase
  refine ⟨by decide +kernel, hdeclares, htypes, ?_⟩
  refine ((canonicalType_signature none).2 _ _ _ hdeclares htypes).trans ?_
  decide +kernel

/-- The brackets of an array inside a function type are taken for dimensions of the whole. -/
theorem canonicalType_callback :
    (ParameterType.mk (.function [.located (.array (.plain "uint256") none) .memory] [.external] [])
        [] none).text = "function (uint256[] memory) external" ∧
      (ParameterType.mk
        (.function [.located (.array (.plain "uint256") none) .memory] [.external] [])
        [] none).abiName = "function" ∧
      canonicalType "function (uint256[] memory) external" = "function[] memory) external" :=
  ⟨by decide +kernel, by decide +kernel, by decide +kernel⟩

end Solidity

end TreeFacts
