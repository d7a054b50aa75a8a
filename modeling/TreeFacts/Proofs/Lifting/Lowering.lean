import TreeFacts.Fact.Reader
import TreeFacts.Proofs.Lifting.Parts
import TreeFacts.Proofs.Tree.Index
import TreeFacts.Proofs.Tree.Walk
import TreeFacts.Proofs.Types.Registry

namespace TreeFacts

namespace Lifted

mutual

/-- The value of the given type that is lifted to this one. -/
def lower (r : Registry) : Lifted → ColumnType → FactValue
  | number n, _ => .number n
  | text s, _ => .symbol s
  | bool b, _ => .ofBool b
  | node n, _ => .number n.id
  | absent, type => if r.classify type = .ok .nodeId then .number absentId else .nil
  | list items, type => .ofList (lowerItems r ((r.fieldTypes type).headD type) items)
  | record xs, type => .record (lowerFields r (r.fieldTypes type) xs)
  | variant tag payload, type => .branch tag (lowerFields r (r.branchTypes type tag) payload)

def lowerItems (r : Registry) (element : ColumnType) : List Lifted → List FactValue
  | [] => []
  | x :: rest => x.lower r element :: lowerItems r element rest

def lowerFields (r : Registry) : List ColumnType → List (String × Lifted) → List FactValue
  | type :: types, (_, x) :: rest => x.lower r type :: lowerFields r types rest
  | _, _ => []

end

end Lifted

namespace FactValue

/-- Everything in a value that is read as a truth value when it is lifted is 0 or 1. -/
def TruthValued (r : Registry) (v : FactValue) (type : ColumnType) : Prop :=
  ∀ n own, Component r r.liftedTypes (.number n) own v type → r.classify own = .ok .bool →
    n = 0 ∨ n = 1

variable {r : Registry} {type : ColumnType}

theorem truthValued_number {n : Int64} :
    TruthValued r (.number n) type ↔ (r.classify type = .ok .bool → n = 0 ∨ n = 1) := by
  constructor
  · intro h
    exact h n type .self
  · intro h m own hm
    cases hm with
    | self => exact h

theorem truthValued_nil : TruthValued r .nil type := by
  intro n own hn
  cases hn

theorem truthValued_record {vs : List FactValue} : TruthValued r (.record vs) type ↔
    ∀ p ∈ vs.zip (r.liftedTypes type), TruthValued r p.1 p.2 := by
  constructor
  · intro h p hp n own hn
    exact h n own (.record hp hn)
  · intro h n own hn
    cases hn with
    | record hp hn => exact h _ hp n own hn

theorem truthValued_branch {tag : String} {args : List FactValue} :
    TruthValued r (.branch tag args) type ↔
      ∀ p ∈ args.zip (r.branchTypes type tag), TruthValued r p.1 p.2 := by
  constructor
  · intro h p hp n own hn
    exact h n own (.branch hp hn)
  · intro h n own hn
    cases hn with
    | branch hp hn => exact h _ hp n own hn

end FactValue

theorem NodeIndex.id_of_get? {roots : List Node} {ix : NodeIndex} (hix : ofRoots roots = .ok ix)
    {id : NodeId} {n : Node} (hn : ix.get? id = some n) : n.id = id := by
  have hkeys : ∀ {visits : List Visit} {start : NodeIndex}, (∀ e ∈ start.entries, e.2.id = e.1) →
      visits.foldlM (fun ix visit => ix.insert visit.2) start = .ok ix →
      ∀ e ∈ ix.entries, e.2.id = e.1 := by
    intro visits
    induction visits with
    | nil =>
      intro start hstart h
      cases h
      exact hstart
    | cons visit visits ih =>
      intro start hstart h
      rw [List.foldlM_cons] at h
      obtain ⟨next, hnext, hrest⟩ := bind_eq_ok.mp h
      refine ih ?_ hrest
      unfold insert at hnext
      split at hnext
      next => cases hnext
      next =>
        cases hnext
        intro e he
        rcases List.mem_cons.mp he with rfl | he
        · rfl
        · exact hstart e he
  exact hkeys (fun e he => by cases he) hix _ (Entries.mem_of_lookup hn)

namespace Lifter

open FactValue Lifted

variable {l : Lifter}

mutual

/-- A value can be told from what it is lifted to. -/
theorem lower_of_lift (hid : ∀ id n, l.nodes.get? id = some n → n.id = id) :
    ∀ (v : FactValue) {type : ColumnType} {x : Lifted}, l.lift v type = .ok x →
      v.TruthValued l.registry type → x.lower l.registry type = v
  | .number n, type, x, h, hb => by
    cases liftsAs_of_lift h with
    | number _ _ => rfl
    | bool _ hc =>
      rcases truthValued_number.mp hb hc with rfl | rfl
      · rfl
      · rfl
    | absent hc => exact if_pos hc
    | node _ hnode => exact congrArg FactValue.number (hid _ _ hnode)
  | .symbol s, type, x, h, _ => by
    cases liftsAs_of_lift h with
    | symbol _ _ => rfl
  | .nil, type, x, h, _ => by
    cases liftsAs_of_lift h with
    | emptyList _ _ _ => rfl
    | missing hc _ _ =>
      rw [lower, hc, if_neg (by simp)]
  | .record vs, type, x, h, hb => by
    cases liftsAs_of_lift h with
    | list _ _ hcons hitems => exact lower_of_liftCell hid vs hcons hitems hb
    | record _ hf hcons hlen hxs =>
      have hparts : l.registry.liftedTypes type = l.registry.fieldTypes type := by
        rw [Registry.liftedTypes, hcons, if_neg Bool.false_ne_true]
      have htypes := Registry.fieldTypes_eq hf
      rw [truthValued_record, hparts, htypes] at hb
      rw [lower, htypes, lower_of_liftFields hid vs hlen hxs hb]
  | .branch tag args, type, x, h, hb => by
    cases liftsAs_of_lift h with
    | variant _ hunion hfind hlen hxs =>
      have htypes := Registry.branchTypes_eq hunion hfind
      rw [truthValued_branch, htypes] at hb
      rw [lower, htypes, lower_of_liftFields hid args hlen hxs hb]

/-- The elements of a list, put into cells, are the list from its first cell on. -/
theorem lower_of_liftCell (hid : ∀ id n, l.nodes.get? id = some n → n.id = id) :
    ∀ (cell : List FactValue) {type : ColumnType} {items : List Lifted},
      l.registry.isConsList type.name = true →
      l.liftCell type.name ((l.registry.fieldTypes type).headD type) cell = .ok items →
      (FactValue.record cell).TruthValued l.registry type →
      FactValue.ofList
        (lowerItems l.registry ((l.registry.fieldTypes type).headD type) items) = .record cell
  | [head, rest], type, items, hcons, h, hb => by
    have hparts : l.registry.liftedTypes type =
        [(l.registry.fieldTypes type).headD type, type] := if_pos hcons
    obtain ⟨_, _, item, more, heq, hitem, rfl, hmore⟩ := liftCell_eq_ok h
    cases heq
    rw [truthValued_record, hparts] at hb
    have hhead := lower_of_lift hid head hitem (hb _ List.mem_cons_self)
    have hrest : FactValue.ofList
        (lowerItems l.registry ((l.registry.fieldTypes type).headD type) more) = rest := by
      rcases hmore with ⟨rfl, rfl⟩ | ⟨next, rfl, hmore⟩
      · rfl
      · exact lower_of_liftCell hid next hcons hmore
          (hb _ (List.mem_cons_of_mem _ List.mem_cons_self))
    rw [lowerItems, hhead]
    exact congrArg (fun rest => FactValue.record [head, rest]) hrest
  | [], _, _, _, h, _ => by simp [liftCell] at h
  | [_], _, _, _, h, _ => by simp [liftCell] at h
  | _ :: _ :: _ :: _, _, _, _, h, _ => by simp [liftCell] at h

theorem lower_of_liftFields (hid : ∀ id n, l.nodes.get? id = some n → n.id = id) :
    ∀ (vs : List FactValue) {fields : FieldTypes} {xs : List (String × Lifted)},
      vs.length = fields.length → l.liftFields fields vs = .ok xs →
      (∀ p ∈ vs.zip (fields.map (·.2)), p.1.TruthValued l.registry p.2) →
      lowerFields l.registry (fields.map (·.2)) xs = vs
  | [], [], xs, _, h, _ => by
    simp only [liftFields] at h
    cases h
    rfl
  | [], _ :: _, _, hlen, _, _ => by simp at hlen
  | _ :: _, [], _, hlen, _, _ => by simp at hlen
  | v :: vs, (name, type) :: fields, xs, hlen, h, hb => by
    obtain ⟨x, more, hx, hmore, rfl⟩ := liftFields_cons_eq_ok h
    have hfirst := lower_of_lift hid v hx (hb (v, type) List.mem_cons_self)
    have hothers := lower_of_liftFields hid vs (Nat.succ.inj hlen) hmore
      fun p hp => hb p (List.mem_cons_of_mem _ hp)
    rw [List.map_cons, lowerFields, hfirst, hothers]

end

/-- Two values of one type that are lifted to the same are the same. Truth values other than 0 and 1
would all be lifted to falsehood. -/
theorem lift_injective {roots : List Node} (hix : NodeIndex.ofRoots roots = .ok l.nodes)
    {type : ColumnType} {v w : FactValue} (hv : v.TruthValued l.registry type)
    (hw : w.TruthValued l.registry type) {x : Lifted} (hlv : l.lift v type = .ok x)
    (hlw : l.lift w type = .ok x) : v = w := by
  have hid : ∀ id n, l.nodes.get? id = some n → n.id = id := fun id n => NodeIndex.id_of_get? hix
  rw [← lower_of_lift hid v hlv hv, lower_of_lift hid w hlw hw]

/-- A type for marks on nodes, and one for lists of them. -/
def markTypes : Registry :=
  ⟨Registry.empty.defs ++ [.record "Mark" [("node", .id), ("kept", .bool)],
    .record "Marks" [("first", .named "Mark"), ("rest", .named "Marks")]], none⟩

def markedRoots : List Node := [.mk 3 "0:9:0" "Block" [("body", .node (.mk 4 "1:2:0" "Leaf" []))]]

def markedIndex : NodeIndex :=
  ⟨[(4, .mk 4 "1:2:0" "Leaf" []),
    (3, .mk 3 "0:9:0" "Block" [("body", .node (.mk 4 "1:2:0" "Leaf" []))])]⟩

/-- Two marks, the second on no node, as they are encoded. -/
def encodedMarks : FactValue :=
  .ofList [.record [.number 4, .ofBool true], .record [.number absentId, .ofBool false]]

/-- The cells that the text of the marks stands for. -/
def writtenMarks : FactValue :=
  .record [.record [.number 4, .number 1], .record [.record [.number (-1), .number 0], .nil]]

theorem truthValued_marks : writtenMarks.TruthValued markTypes (.named "Marks") := by
  have hmarks : markTypes.liftedTypes (.named "Marks") = [.named "Mark", .named "Marks"] := rfl
  have hmark : markTypes.liftedTypes (.named "Mark") = [.id, .bool] := rfl
  simp [writtenMarks, truthValued_record, truthValued_number, truthValued_nil, hmarks, hmark]

theorem lift_injective_marks :
    NodeIndex.ofRoots markedRoots = .ok markedIndex ∧
      encodedMarks.TruthValued markTypes (.named "Marks") ∧
      writtenMarks.TruthValued markTypes (.named "Marks") ∧
      FactValue.parse markTypes (.named "Marks") "[[4, 1], [[-1, 0], nil]]" = .ok writtenMarks ∧
      (∃ x, lift ⟨markTypes, markedIndex⟩ encodedMarks (.named "Marks") = .ok x ∧
        lift ⟨markTypes, markedIndex⟩ writtenMarks (.named "Marks") = .ok x) ∧
      encodedMarks = writtenMarks := by
  have hindex : NodeIndex.ofRoots markedRoots = .ok markedIndex := by
    rw [NodeIndex.ofRoots, walkAll_eq]
    rfl
  have hencoded : encodedMarks.TruthValued markTypes (.named "Marks") := truthValued_marks
  have hlift : lift ⟨markTypes, markedIndex⟩ encodedMarks (.named "Marks") =
      .ok (.list [.record [("node", .node (.mk 4 "1:2:0" "Leaf" [])), ("kept", .bool true)],
        .record [("node", .absent), ("kept", .bool false)]]) := rfl
  have hlift' : lift ⟨markTypes, markedIndex⟩ writtenMarks (.named "Marks") =
      .ok (.list [.record [("node", .node (.mk 4 "1:2:0" "Leaf" [])), ("kept", .bool true)],
        .record [("node", .absent), ("kept", .bool false)]]) := rfl
  refine ⟨hindex, hencoded, truthValued_marks, by decide +kernel, ⟨_, hlift, hlift'⟩, ?_⟩
  exact @lift_injective ⟨markTypes, markedIndex⟩ _ hindex _ _ _ hencoded truthValued_marks _
    hlift hlift'

end Lifter

end TreeFacts
