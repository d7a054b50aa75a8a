import Mathlib.Order.Bounds.Defs
import Mathlib.Data.Set.Basic
import TreeFacts.Proofs.Encoding.Additive
import TreeFacts.Proofs.Encoding.Slots

namespace TreeFacts

theorem Node.mem_children_of_child? {n a : Node} {field : String} (h : n.child? field = some a) :
    a ∈ n.children := by
  obtain ⟨v, hv, ha⟩ := Option.bind_eq_some_iff.mp h
  cases v with
  | node b =>
    cases ha
    exact mem_children_of_field? hv (by simp [Value.nodes])
  | _ => cases ha

theorem Node.mem_children_of_listed {n a : Node} {field : String} {operands : List Node}
    (h : n.field? field = some (.list (operands.map .node))) (ha : a ∈ operands) :
    a ∈ n.children := by
  refine mem_children_of_field? h (Value.mem_nodesInList.mpr ?_)
  exact ⟨.node a, List.mem_map_of_mem ha, by simp [Value.nodes]⟩

namespace Solidity

/-- The ways in which an expression is constant where all of the given ones are. -/
inductive ConstantFrom (m : Set Node) : Node → Prop
  | literal {n} : n.kind = "Literal" → ConstantFrom m n
  | unary {n a} : n.kind = "UnaryOperation" → n.child? "subExpression" = some a → a ∈ m →
      ConstantFrom m n
  | binary {n a b} : n.kind = "BinaryOperation" → n.child? "leftExpression" = some a →
      n.child? "rightExpression" = some b → a ∈ m → b ∈ m → ConstantFrom m n
  | conditional {n a b c} : n.kind = "Conditional" → n.child? "condition" = some a →
      n.child? "trueExpression" = some b → n.child? "falseExpression" = some c →
      a ∈ m → b ∈ m → c ∈ m → ConstantFrom m n
  | tuple {n} {operands : List Node} : n.kind = "TupleExpression" →
      n.field? "components" = some (.list (operands.map .node)) → operands ≠ [] →
      (∀ a ∈ operands, a ∈ m) → ConstantFrom m n
  | conversion {n} {operands : List Node} : n.kind = "FunctionCall" →
      n.text? "kind" = some "typeConversion" →
      n.field? "arguments" = some (.list (operands.map .node)) → operands ≠ [] →
      (∀ a ∈ operands, a ∈ m) → ConstantFrom m n

theorem isConstantValue_iff {v : Value} :
    isConstantValue v = true ↔ ∃ a, v = .node a ∧ isConstant a = true := by
  cases v <;> simp [isConstantValue]

theorem areConstantValues_iff {items : List Value} : areConstantValues items = true ↔
    ∃ operands : List Node, items = operands.map .node ∧ ∀ a ∈ operands, isConstant a = true := by
  induction items with
  | nil => simp [areConstantValues]
  | cons v items ih =>
    rw [areConstantValues, Bool.and_eq_true, isConstantValue_iff, ih]
    constructor
    · rintro ⟨⟨a, rfl, ha⟩, operands, rfl, hoperands⟩
      exact ⟨a :: operands, rfl, List.forall_mem_cons.mpr ⟨ha, hoperands⟩⟩
    · rintro ⟨operands, heq, hoperands⟩
      cases operands with
      | nil => cases heq
      | cons a operands =>
        obtain ⟨rfl, rfl⟩ := List.cons.inj heq
        obtain ⟨ha, hoperands⟩ := List.forall_mem_cons.mp hoperands
        exact ⟨⟨a, rfl, ha⟩, operands, rfl, hoperands⟩

theorem isConstantOperand_iff {name : String} {fields : List (String × Value)} :
    isConstantOperand name fields = true ↔
      ∃ a, fields.lookup name = some (.node a) ∧ isConstant a = true := by
  induction fields with
  | nil => simp [isConstantOperand]
  | cons entry fields ih =>
    obtain ⟨key, v⟩ := entry
    rw [isConstantOperand, List.lookup_cons]
    cases name == key with
    | true => simp [isConstantValue_iff]
    | false => simpa using ih

theorem areConstantOperands_iff {name : String} {fields : List (String × Value)} :
    areConstantOperands name fields = true ↔ ∃ operands : List Node,
      fields.lookup name = some (.list (operands.map .node)) ∧ operands ≠ [] ∧
        ∀ a ∈ operands, isConstant a = true := by
  induction fields with
  | nil => simp [areConstantOperands]
  | cons entry fields ih =>
    obtain ⟨key, v⟩ := entry
    rw [List.lookup_cons]
    cases hkey : name == key with
    | true =>
      cases v with
      | list items =>
        rw [areConstantOperands, if_pos hkey, Bool.and_eq_true, areConstantValues_iff]
        constructor
        · rintro ⟨hne, operands, rfl, hoperands⟩
          refine ⟨operands, rfl, ?_, hoperands⟩
          rintro rfl
          cases hne
        · rintro ⟨operands, heq, hne, hoperands⟩
          cases heq
          exact ⟨by simpa using hne, operands, rfl, hoperands⟩
      | _ => simp [areConstantOperands, hkey]
    | false => cases v <;> simpa [areConstantOperands, hkey] using ih

variable {m m' : Set Node} {n : Node}

theorem child?_eq_some {n a : Node} {field : String} :
    n.child? field = some a ↔ n.fields.lookup field = some (.node a) := by
  rw [Node.child?, Node.field?]
  cases n.fields.lookup field with
  | none => simp
  | some v => cases v <;> simp [Value.node?]

theorem operand_iff {n : Node} {field : String} : isConstantOperand field n.fields = true ↔
    ∃ a, n.child? field = some a ∧ isConstant a = true := by
  simp only [isConstantOperand_iff, child?_eq_some]

theorem listed_iff {n : Node} {field : String} : areConstantOperands field n.fields = true ↔
    ∃ operands : List Node, n.field? field = some (.list (operands.map .node)) ∧ operands ≠ [] ∧
      ∀ a ∈ operands, isConstant a = true := areConstantOperands_iff

theorem isConstant_eq (n : Node) : isConstant n =
    match Kind.ofName n.kind with
    | .ok .literal => true
    | .ok .unaryOperation => isConstantOperand "subExpression" n.fields
    | .ok .binaryOperation => isConstantOperand "leftExpression" n.fields &&
        isConstantOperand "rightExpression" n.fields
    | .ok .conditional => isConstantOperand "condition" n.fields &&
        isConstantOperand "trueExpression" n.fields && isConstantOperand "falseExpression" n.fields
    | .ok .tupleExpression => areConstantOperands "components" n.fields
    | .ok .functionCall => n.text? "kind" == some "typeConversion" &&
        areConstantOperands "arguments" n.fields
    | _ => false := by
  cases n
  rw [isConstant]
  rfl

theorem constantFrom_of_isConstant (h : isConstant n = true) :
    ConstantFrom {a | isConstant a = true} n := by
  rw [isConstant_eq] at h
  split at h
  next hkind => exact .literal (Kind.ofName_eq_ok.mp hkind)
  next hkind =>
    obtain ⟨a, hfield, ha⟩ := operand_iff.mp h
    exact .unary (Kind.ofName_eq_ok.mp hkind) hfield ha
  next hkind =>
    obtain ⟨hleft, hright⟩ := Bool.and_eq_true_iff.mp h
    obtain ⟨a, hleft, ha⟩ := operand_iff.mp hleft
    obtain ⟨b, hright, hb⟩ := operand_iff.mp hright
    exact .binary (Kind.ofName_eq_ok.mp hkind) hleft hright ha hb
  next hkind =>
    obtain ⟨hboth, hfalse⟩ := Bool.and_eq_true_iff.mp h
    obtain ⟨hcondition, htrue⟩ := Bool.and_eq_true_iff.mp hboth
    obtain ⟨a, hcondition, ha⟩ := operand_iff.mp hcondition
    obtain ⟨b, htrue, hb⟩ := operand_iff.mp htrue
    obtain ⟨c, hfalse, hc⟩ := operand_iff.mp hfalse
    exact .conditional (Kind.ofName_eq_ok.mp hkind) hcondition htrue hfalse ha hb hc
  next hkind =>
    obtain ⟨operands, hfield, hne, hoperands⟩ := listed_iff.mp h
    exact .tuple (Kind.ofName_eq_ok.mp hkind) hfield hne hoperands
  next hkind =>
    obtain ⟨hcall, hlisted⟩ := Bool.and_eq_true_iff.mp h
    obtain ⟨operands, hfield, hne, hoperands⟩ := listed_iff.mp hlisted
    exact .conversion (Kind.ofName_eq_ok.mp hkind) (beq_iff_eq.mp hcall) hfield hne hoperands
  next => cases h

/-- An expression is constant just where it is made from constant ones. -/
theorem isConstant_iff : isConstant n = true ↔ ConstantFrom {a | isConstant a = true} n := by
  refine ⟨constantFrom_of_isConstant, fun h => ?_⟩
  rw [isConstant_eq]
  cases h with
  | literal hkind =>
    have hname : Kind.ofName n.kind = .ok .literal := Kind.ofName_eq_ok.mpr hkind
    rw [hname]
  | unary hkind hfield ha =>
    have hname : Kind.ofName n.kind = .ok .unaryOperation := Kind.ofName_eq_ok.mpr hkind
    rw [hname]
    exact operand_iff.mpr ⟨_, hfield, ha⟩
  | binary hkind hleft hright ha hb =>
    have hname : Kind.ofName n.kind = .ok .binaryOperation := Kind.ofName_eq_ok.mpr hkind
    rw [hname]
    exact Bool.and_eq_true_iff.mpr ⟨operand_iff.mpr ⟨_, hleft, ha⟩, operand_iff.mpr ⟨_, hright, hb⟩⟩
  | conditional hkind hcondition htrue hfalse ha hb hc =>
    have hname : Kind.ofName n.kind = .ok .conditional := Kind.ofName_eq_ok.mpr hkind
    rw [hname]
    simp only [Bool.and_eq_true]
    exact ⟨⟨operand_iff.mpr ⟨_, hcondition, ha⟩, operand_iff.mpr ⟨_, htrue, hb⟩⟩,
      operand_iff.mpr ⟨_, hfalse, hc⟩⟩
  | tuple hkind hfield hne hoperands =>
    have hname : Kind.ofName n.kind = .ok .tupleExpression := Kind.ofName_eq_ok.mpr hkind
    rw [hname]
    exact listed_iff.mpr ⟨_, hfield, hne, hoperands⟩
  | conversion hkind hcall hfield hne hoperands =>
    have hname : Kind.ofName n.kind = .ok .functionCall := Kind.ofName_eq_ok.mpr hkind
    rw [hname]
    exact Bool.and_eq_true_iff.mpr
      ⟨beq_iff_eq.mpr hcall, listed_iff.mpr ⟨_, hfield, hne, hoperands⟩⟩

/-- What an expression is made from stands in it, so only its own children matter. -/
theorem ConstantFrom.mono (h : ConstantFrom m n) (hm : ∀ a ∈ n.children, a ∈ m → a ∈ m') :
    ConstantFrom m' n := by
  have hchild {field : String} {a : Node} (hfield : n.child? field = some a) (ha : a ∈ m) :
      a ∈ m' := hm a (Node.mem_children_of_child? hfield) ha
  have hlisted {field : String} {operands : List Node}
      (hfield : n.field? field = some (.list (operands.map .node)))
      (hoperands : ∀ a ∈ operands, a ∈ m) : ∀ a ∈ operands, a ∈ m' :=
    fun a ha => hm a (Node.mem_children_of_listed hfield ha) (hoperands a ha)
  cases h with
  | literal hkind => exact .literal hkind
  | unary hkind hfield ha => exact .unary hkind hfield (hchild hfield ha)
  | binary hkind hleft hright ha hb =>
    exact .binary hkind hleft hright (hchild hleft ha) (hchild hright hb)
  | conditional hkind hcondition htrue hfalse ha hb hc =>
    exact .conditional hkind hcondition htrue hfalse (hchild hcondition ha) (hchild htrue hb)
      (hchild hfalse hc)
  | tuple hkind hfield hne hoperands => exact .tuple hkind hfield hne (hlisted hfield hoperands)
  | conversion hkind hcall hfield hne hoperands =>
    exact .conversion hkind hcall hfield hne (hlisted hfield hoperands)

/-- What is constant in a forest is what has to be. -/
theorem constants_isLeast (roots : List Node) :
    IsLeast {m | ∀ n ∈ nodesOfRoots roots, ConstantFrom m n → n ∈ m}
      {n | n ∈ nodesOfRoots roots ∧ isConstant n = true} := by
  refine ⟨fun n hn h => ⟨hn, isConstant_iff.mpr (h.mono fun a _ ha => ha.2)⟩, ?_⟩
  rintro m hm n ⟨hn, hconstant⟩
  -- From the leaves up: the operands of a constant expression are smaller, and in the set.
  induction hsize : n.size using Nat.strong_induction_on generalizing n with
  | _ size ih =>
    refine hm n hn ((isConstant_iff.mp hconstant).mono fun a ha haconstant => ?_)
    exact ih a.size (hsize ▸ Node.size_lt_of_mem_children ha) (child_mem_nodesOfRoots hn ha)
      haconstant rfl

theorem isExpression_of_isConstant {n : Node} {kind : Kind} (hkind : Kind.ofName n.kind = .ok kind)
    (h : isConstant n = true) : kind.isExpression = true := by
  rw [isConstant_eq, hkind] at h
  split at h
  next heq => cases heq; decide
  next heq => cases heq; decide
  next heq => cases heq; decide
  next heq => cases heq; decide
  next heq => cases heq; decide
  next heq => cases heq; decide
  next => cases h

/-- A node gives at most one fact about being constant. -/
theorem tuplesUnder_constantExpression (n : Node) :
    tuplesUnder "ConstantExpression" (nodeFacts n) =
      if isConstant n = true then [[.number n.id]] else [] := by
  unfold nodeFacts
  split
  next err hkind =>
    rw [isConstant_eq, hkind]
    rfl
  next kind hkind =>
    have hother : ∀ facts : List Fact, (∀ fact ∈ facts, fact.1 ≠ "ConstantExpression") →
        tuplesUnder "ConstantExpression" ((if (kind.isExpression && isConstant n) = true then
          [("ConstantExpression", [FactValue.number n.id])] else []) ++ facts) =
        if isConstant n = true then [[.number n.id]] else [] := by
      intro facts hfacts
      rw [tuplesUnder_append, tuplesUnder_eq_nil hfacts, List.append_nil]
      by_cases hconstant : isConstant n = true
      · rw [isExpression_of_isConstant hkind hconstant, hconstant]
        rfl
      · rw [Bool.eq_false_iff.mpr hconstant, Bool.and_false]
        rfl
    refine hother _ fun fact hfact => ?_
    split at hfact
    next =>
      split at hfact
      next => rw [List.mem_singleton.mp hfact]; simp
      next => cases hfact
    next => rcases mem_signatureFacts hfact with ⟨text, rfl⟩ | ⟨text, rfl⟩ <;> simp
    next => rcases mem_signatureFacts hfact with ⟨text, rfl⟩ | ⟨text, rfl⟩ <;> simp
    next => cases hfact

end Solidity

namespace Schema

variable {g : Grammar} {skip : SkipSet} {s : Schema} {roots : List Node} {fs : FactSet}
  {warnings : List Warning} {version? : Option Solidity.Version}

open Solidity (ConstantFrom isConstant)

/-- The facts of the constant nodes of a forest, in the order of the walk. -/
def constantTuples (roots : List Node) : List Tuple :=
  ((nodesOfRoots roots).filter isConstant).map fun n => [.number n.id]

theorem constantTuples_eq_flatMap (roots : List Node) : constantTuples roots =
    (walkAll roots).flatMap fun v => if isConstant v.2 = true then [[.number v.2.id]] else [] := by
  rw [constantTuples, nodesOfRoots, ← walkAll_eq]
  induction walkAll roots with
  | nil => rfl
  | cons v vs ih =>
    rw [List.flatMap_cons, List.map_cons, List.filter_cons, ← ih]
    split <;> rfl

theorem number_mem_constantTuples (hnodup : ((nodesOfRoots roots).map Node.id).Nodup) {n : Node}
    (hn : n ∈ nodesOfRoots roots) :
    [FactValue.number n.id] ∈ constantTuples roots ↔ isConstant n = true := by
  rw [constantTuples, List.mem_map]
  constructor
  · rintro ⟨a, ha, heq⟩
    obtain ⟨ha, hconstant⟩ := List.mem_filter.mp ha
    have hid : a.id = n.id := by simpa using heq
    rwa [← List.inj_on_of_nodup_map hnodup ha hn hid]
  · intro hconstant
    exact ⟨n, List.mem_filter.mpr ⟨hn, hconstant⟩, rfl⟩

theorem constantTuples_nodup (hnodup : ((nodesOfRoots roots).map Node.id).Nodup) :
    (constantTuples roots).Nodup := by
  have hids : (((nodesOfRoots roots).filter isConstant).map Node.id).Nodup :=
    hnodup.sublist (List.filter_sublist.map Node.id)
  have hinjective : Function.Injective fun id => [FactValue.number id] :=
    fun a b hab => by simpa using hab
  have htuples := hids.map hinjective
  rwa [List.map_map] at htuples

theorem facts_constantExpression (h : derive g skip (Solidity.enrichment version?) = .ok s)
    (hfs : s.encodeAll (Solidity.enrichment version?) roots = .ok (fs, warnings)) :
    fs.facts "ConstantExpression" = .ok (constantTuples roots) := by
  obtain ⟨_, _, _, derived, -, -, -, hderived, hinputs, -⟩ := derive_eq_ok h
  obtain ⟨_, _, _, _, _, _, _, -, -, -, -, hrelations⟩ :=
    Solidity.declareRelations_eq_ok hderived
  obtain ⟨r, hr, hname⟩ : ∃ r ∈ derived, r.name = "ConstantExpression" := by
    rw [hrelations]
    exact ⟨_, List.mem_cons_self, rfl⟩
  have hmem : r ∈ s.inputs := by
    rw [hinputs]
    exact List.mem_append_right _ hr
  have honce : tuplesUnder r.name (Solidity.enrichment version?).once = [] :=
    tuplesUnder_once (Or.inr ⟨version?, rfl⟩) (Or.inl (by rw [hname]; decide))
  have hown : ∀ v ∈ walkAll roots,
      tuplesUnder r.name (s.enrichedFacts (Solidity.enrichment version?) v) =
        if isConstant v.2 = true then [[.number v.2.id]] else [] := by
    intro v hv
    have hencodes := ((canEncode_iff.mp ⟨fs, warnings, hfs⟩).2.1 v hv).encodes
    rw [enrichedFacts, tuplesUnder_append, tuplesUnder_factsOf_derived h hinputs hr hencodes,
      List.nil_append, hname]
    exact Solidity.tuplesUnder_constantExpression v.2
  have hall := facts_of_encodeAll h hfs hmem
  rw [constantTuples_eq_flatMap, ← hname]
  rwa [honce, List.append_nil, List.flatMap_congr hown] at hall

/-- Constant expressions are the least set of nodes that has the literals and whatever is made from
its members, and each of them is there once. -/
theorem encodeAll_constants (h : derive g skip (Solidity.enrichment version?) = .ok s)
    (hfs : s.encodeAll (Solidity.enrichment version?) roots = .ok (fs, warnings)) :
    ∃ tuples, fs.facts "ConstantExpression" = .ok tuples ∧ tuples.Nodup ∧
      (∀ t ∈ tuples, ∃ n ∈ nodesOfRoots roots, t = [.number n.id]) ∧
      IsLeast {m | ∀ n ∈ nodesOfRoots roots, ConstantFrom m n → n ∈ m}
        {n | n ∈ nodesOfRoots roots ∧ [.number n.id] ∈ tuples} ∧
      ∀ n ∈ nodesOfRoots roots, [.number n.id] ∈ tuples →
        ConstantFrom {a | a ∈ nodesOfRoots roots ∧ [.number a.id] ∈ tuples} n := by
  have hnodup : ((nodesOfRoots roots).map Node.id).Nodup := by
    have hids := (canEncode_iff.mp ⟨fs, warnings, hfs⟩).1
    rwa [nodesOfRoots, List.map_map, ← walkAll_eq]
  refine ⟨_, facts_constantExpression h hfs, constantTuples_nodup hnodup, ?_, ?_, ?_⟩
  · intro t ht
    obtain ⟨n, hn, rfl⟩ := List.mem_map.mp ht
    exact ⟨n, List.mem_of_mem_filter hn, rfl⟩
  · have hset : {n | n ∈ nodesOfRoots roots ∧ [FactValue.number n.id] ∈ constantTuples roots} =
        {n | n ∈ nodesOfRoots roots ∧ isConstant n = true} :=
      Set.ext fun n => and_congr_right (number_mem_constantTuples hnodup)
    rw [hset]
    exact Solidity.constants_isLeast roots
  · intro n hn ht
    have hconstant := Solidity.isConstant_iff.mp ((number_mem_constantTuples hnodup hn).mp ht)
    refine hconstant.mono fun a ha haconstant => ?_
    have hmem := child_mem_nodesOfRoots hn ha
    exact ⟨hmem, (number_mem_constantTuples hnodup hmem).mpr haconstant⟩

/-- Leaves out every field, so that only what the enrichment adds tells the nodes apart. -/
def everyField : SkipSet := ⟨(Solidity.Kind.all.flatMap Solidity.Kind.fields).map (·.name), []⟩

/-- A sum with a parenthesised operand, a conversion of a negation, and a tuple with a hole. -/
def constantsForest : List Node :=
  [.mk 1 "0:9:0" "BinaryOperation"
      [("leftExpression", .node (.mk 2 "0:1:0" "Literal" [])),
        ("rightExpression", .node (.mk 3 "4:5:0" "TupleExpression"
          [("components", .list [.node (.mk 4 "5:1:0" "Literal" [])])]))],
    .mk 5 "10:8:0" "FunctionCall"
      [("kind", .text "typeConversion"),
        ("arguments", .list [.node (.mk 6 "15:2:0" "UnaryOperation"
          [("subExpression", .node (.mk 7 "16:1:0" "Literal" []))])])],
    .mk 8 "20:4:0" "TupleExpression"
      [("components", .list [.null, .node (.mk 9 "22:1:0" "Literal" [])])]]

def constantsFacts : Except Error (List Tuple) := do
  let s ← derive Solidity.grammar everyField (Solidity.enrichment none)
  let (fs, _) ← s.encodeAll (Solidity.enrichment none) constantsForest
  fs.facts "ConstantExpression"

def constantIds : List NodeId := [1, 2, 3, 4, 5, 6, 7, 9]

theorem encodeAll_constants_forest : ∃ s fs warnings,
    derive Solidity.grammar everyField (Solidity.enrichment none) = .ok s ∧
      s.encodeAll (Solidity.enrichment none) constantsForest = .ok (fs, warnings) ∧
      fs.facts "ConstantExpression" = .ok (constantIds.map fun id => [.number id]) ∧
      IsLeast {m | ∀ n ∈ nodesOfRoots constantsForest, ConstantFrom m n → n ∈ m}
        {n | n ∈ nodesOfRoots constantsForest ∧
          [.number n.id] ∈ constantIds.map fun id => [FactValue.number id]} := by
  have hrun : constantsFacts = .ok (constantIds.map fun id => [.number id]) := by decide +kernel
  obtain ⟨s, hderive, hrun⟩ := bind_eq_ok.mp hrun
  obtain ⟨⟨fs, warnings⟩, hencode, hfacts⟩ := bind_eq_ok.mp hrun
  obtain ⟨tuples, htuples, -, -, hleast, -⟩ := encodeAll_constants hderive hencode
  cases hfacts.symm.trans htuples
  exact ⟨s, fs, warnings, hderive, hencode, hfacts, hleast⟩

end Schema

end TreeFacts
