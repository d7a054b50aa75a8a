import TreeFacts.Entries
import TreeFacts.Lifting.Lift
import TreeFacts.Proofs.Fact.Accepted
import TreeFacts.Proofs.Types.Registry

namespace TreeFacts

namespace Registry

/-- A list type, by its last field, whose cells are not made of one element and the rest. -/
def IsOddList (r : Registry) (name : String) : Prop :=
  ∃ fields, r.record? name = some fields ∧ r.isConsList name = true ∧ fields.length ≠ 2

theorem not_isOddList {r : Registry} {name : String} {fields : FieldTypes}
    (hf : r.record? name = some fields) (hlen : fields.length = 2) : ¬r.IsOddList name := by
  rintro ⟨fields', hf', -, hne⟩
  rw [hf] at hf'
  cases hf'
  exact hne hlen

theorem isConsList_eq_true {r : Registry} {name : String} {fields : FieldTypes}
    (hf : r.record? name = some fields) (h : r.isConsList name = true) :
    ∃ front field, fields = front ++ [(field, .named name)] := by
  unfold isConsList at h
  rw [hf, Option.bind_some] at h
  split at h
  next field type hlast =>
    obtain ⟨front, rfl⟩ := List.getLast?_eq_some_iff.mp hlast
    rw [eq_of_beq h]
    exact ⟨front, field, rfl⟩
  next => cases h

/-- The cells of a list type with two fields are an element and the rest. -/
theorem cell_of_isConsList {r : Registry} {name : String} {fields : FieldTypes}
    (hf : r.record? name = some fields) (h : r.isConsList name = true) (hlen : fields.length = 2) :
    ∃ head element tail, fields = [(head, element), (tail, .named name)] := by
  obtain ⟨front, tail, rfl⟩ := isConsList_eq_true hf h
  have hfront : front.length = 1 := by
    simp only [List.length_append, List.length_singleton] at hlen
    omega
  obtain ⟨⟨head, element⟩, rfl⟩ := List.length_eq_one_iff.mp hfront
  exact ⟨head, element, tail, rfl⟩

theorem eq_named_of_classify {r : Registry} {type : ColumnType}
    (h : r.classify type = .ok .record) : type = .named type.name := by
  cases type with
  | named name => rfl
  | number => rw [classify_number] at h; cases h
  | symbol => rw [classify_symbol] at h; cases h

end Registry

namespace FactValue

mutual

/-- Whether a cell of a list type that has not two fields stands somewhere in a value. -/
def HoldsOddCell (r : Registry) : FactValue → ColumnType → Prop
  | .record vs, type =>
    r.IsOddList type.name ∨
      ∃ fields, r.record? type.name = some fields ∧ SomeHoldsOddCell r vs fields
  | .branch tag args, type =>
    ∃ branches b, r.union? type.name = some branches ∧ branches.find? (·.name == tag) = some b ∧
      SomeHoldsOddCell r args b.fields
  | .number _, _ | .symbol _, _ | .nil, _ => False

def SomeHoldsOddCell (r : Registry) : List FactValue → FieldTypes → Prop
  | v :: vs, (_, type) :: fields => HoldsOddCell r v type ∨ SomeHoldsOddCell r vs fields
  | _, _ => False

end

theorem holdsOddCell_record {r : Registry} {type : ColumnType} {fields : FieldTypes}
    (hf : r.record? type.name = some fields) (vs : List FactValue) :
    HoldsOddCell r (.record vs) type ↔ r.IsOddList type.name ∨ SomeHoldsOddCell r vs fields := by
  simp [HoldsOddCell, hf]

theorem holdsOddCell_branch {r : Registry} {type : ColumnType} {branches : List Branch} {b : Branch}
    {tag : String} (hb : r.union? type.name = some branches)
    (hfind : branches.find? (·.name == tag) = some b) (args : List FactValue) :
    HoldsOddCell r (.branch tag args) type ↔ SomeHoldsOddCell r args b.fields := by
  simp [HoldsOddCell, hb, hfind]

end FactValue

namespace Lifter

variable {α β : Type} {l : Lifter} {odd odd' : Prop}

/-- What lifting can come to: an answer if there are no odd cells, a reference without a node, or
such a cell. -/
def Outcome (l : Lifter) (odd : Prop) (x : Except Error α) : Prop :=
  (∃ a, x = .ok a ∧ ¬odd) ∨
    (∃ id, x = .error (.danglingReference id) ∧ l.nodes.get? id = none) ∨
    ∃ name, x = .error (.parse (.malformedCell name)) ∧ l.registry.IsOddList name ∧ odd

theorem Outcome.of_ok (a : α) : l.Outcome False (.ok a : Except Error α) :=
  Or.inl ⟨a, rfl, not_false⟩

theorem Outcome.bind {x : Except Error α} {f : α → Except Error β} (hx : l.Outcome odd x)
    (hf : ∀ a, l.Outcome odd' (f a)) : l.Outcome (odd ∨ odd') (x >>= f) := by
  rcases hx with ⟨a, rfl, hno⟩ | ⟨id, rfl, hid⟩ | ⟨name, rfl, hname, hodd⟩
  · rw [ok_bind]
    rcases hf a with ⟨b, hb, hno'⟩ | hdangling | ⟨name, hb, hname, hodd⟩
    · exact Or.inl ⟨b, hb, not_or.mpr ⟨hno, hno'⟩⟩
    · exact Or.inr (Or.inl hdangling)
    · exact Or.inr (Or.inr ⟨name, hb, hname, Or.inr hodd⟩)
  · exact Or.inr (Or.inl ⟨id, rfl, hid⟩)
  · exact Or.inr (Or.inr ⟨name, rfl, hname, Or.inl hodd⟩)

theorem Outcome.bind_ok {x : Except Error α} (hx : l.Outcome odd x) (f : α → β) :
    l.Outcome odd (x >>= fun a => .ok (f a)) := by
  have h := hx.bind fun a => Outcome.of_ok (l := l) (f a)
  rwa [or_false] at h

theorem Outcome.map {x : Except Error α} (hx : l.Outcome odd x) (f : α → β) :
    l.Outcome odd (x.map f) := hx.bind_ok f

theorem liftReference_outcome (l : Lifter) (id : NodeId) :
    l.Outcome False (l.liftReference id) := by
  unfold liftReference
  split
  next => exact .of_ok _
  next =>
    split
    next n _ => exact .of_ok _
    next hid => exact Or.inr (Or.inl ⟨id, rfl, hid⟩)

theorem lift_number_outcome {n : Int64} {type : ColumnType}
    (ht : HasType l.registry (.number n) type) :
    l.Outcome False (l.lift (.number n) type) := by
  simp only [HasType] at ht
  obtain ⟨c, hc, hn⟩ := ht
  simp only [lift, hc, ok_bind]
  rcases hn with rfl | rfl | rfl
  · exact .of_ok _
  · exact .of_ok _
  · exact liftReference_outcome l n

/-- No cell is the element and the rest where a list type has not two fields. -/
theorem liftCell_outcome_of_isOddList {name : String} (hodd : l.registry.IsOddList name)
    (element : ColumnType) {vs : List FactValue} (hwidth : vs.length ≠ 2) (odd : Prop) :
    l.Outcome (l.registry.IsOddList name ∨ odd) (l.liftCell name element vs) := by
  have hcell : l.liftCell name element vs = .error (.parse (.malformedCell name)) := by
    unfold liftCell
    split
    next => exact absurd rfl hwidth
    next => exact absurd rfl hwidth
    next => rfl
  exact Or.inr (Or.inr ⟨name, hcell, hodd, Or.inl hodd⟩)

open FactValue in
mutual

/-- A value of a type is lifted at it, unless it refers to no node or holds an odd cell. -/
theorem lift_outcome (l : Lifter) : ∀ (v : FactValue) {type : ColumnType},
    HasType l.registry v type → l.Outcome (HoldsOddCell l.registry v type) (l.lift v type)
  | .number n, type, ht => by
    simp only [HoldsOddCell]
    exact lift_number_outcome ht
  | .symbol s, type, ht => by
    simp only [HasType] at ht
    simp only [HoldsOddCell, lift, ht, ok_bind, liftAtom]
    exact .of_ok _
  | .nil, type, ht => by
    simp only [HasType] at ht
    obtain ⟨hc, fields, hf⟩ := ht
    simp only [HoldsOddCell, lift, hc, ok_bind, liftAtom, hf]
    exact .of_ok _
  | .record vs, type, ht => by
    simp only [HasType] at ht
    obtain ⟨hc, fields, hf, hvs⟩ := ht
    rw [holdsOddCell_record hf]
    simp only [lift, hc, ok_bind, hf]
    by_cases hcons : l.registry.isConsList type.name = true
    · rw [if_pos hcons]
      by_cases hlen : fields.length = 2
      · have hodd := Registry.not_isOddList hf hlen
        have hclass : l.registry.classify (.named type.name) = .ok .record :=
          Registry.eq_named_of_classify hc ▸ hc
        obtain ⟨head, element, tail, rfl⟩ := Registry.cell_of_isConsList hf hcons hlen
        have hcell := liftCell_outcome l vs hclass hf hodd hvs
        simp only [hodd, false_or, List.head?_cons, Option.map_some, Option.getD_some]
        exact hcell.map Lifted.list
      · have hwidth : vs.length ≠ 2 := by rwa [hvs.length_eq]
        exact (liftCell_outcome_of_isOddList ⟨fields, hf, hcons, hlen⟩ _ hwidth _).map Lifted.list
    · have hodd : ¬l.registry.IsOddList type.name := fun ⟨_, _, h, _⟩ => hcons h
      rw [if_neg hcons, if_pos hvs.length_eq]
      simpa only [hodd, false_or] using (liftFields_outcome l vs hvs).map Lifted.record
  | .branch tag args, type, ht => by
    simp only [HasType] at ht
    obtain ⟨hc, branches, b, hb, hfind, hargs⟩ := ht
    rw [holdsOddCell_branch hb hfind]
    simp only [lift, hc, ok_bind, hb, Option.getD_some, hfind]
    rw [if_pos hargs.length_eq.symm]
    exact (liftFields_outcome l args hargs).map (Lifted.variant tag)

/-- Along the cells of a list the rest is again a cell of it or its end. -/
theorem liftCell_outcome (l : Lifter) : ∀ (vs : List FactValue) {name head tail : String}
    {element : ColumnType}, l.registry.classify (.named name) = .ok .record →
    l.registry.record? name = some [(head, element), (tail, .named name)] →
    ¬l.registry.IsOddList name → HaveTypes l.registry vs [(head, element), (tail, .named name)] →
    l.Outcome
      (SomeHoldsOddCell l.registry vs [(head, element), (tail, .named name)])
      (l.liftCell name element vs)
  | [], _, _, _, _, _, _, _, ht => by simp [HaveTypes] at ht
  | [_], _, _, _, _, _, _, _, ht => by simp [HaveTypes] at ht
  | _ :: _ :: _ :: _, _, _, _, _, _, _, _, ht => by simp [HaveTypes] at ht
  | [v, w], name, head, tail, element, hc, hf, hodd, ht => by
    simp only [HaveTypes, and_true] at ht
    obtain ⟨hv, hw⟩ := ht
    have hhead := lift_outcome l v hv
    simp only [SomeHoldsOddCell, or_false]
    cases w with
    | nil =>
      simp only [HoldsOddCell, or_false, liftCell]
      exact hhead.bind_ok fun x => [x]
    | record more =>
      simp only [HasType, ColumnType.name, hf, Option.some.injEq, exists_eq_left'] at hw
      have hrest := liftCell_outcome l more hc hf hodd hw.2
      have hcell : HoldsOddCell l.registry (.record more) (.named name) ↔
          SomeHoldsOddCell l.registry more [(head, element), (tail, .named name)] :=
        (@holdsOddCell_record _ (.named name) _ hf more).trans (or_iff_right hodd)
      rw [hcell]
      simp only [liftCell]
      exact hhead.bind fun x => hrest.bind_ok fun xs => x :: xs
    | number _ | symbol _ | branch _ _ => simp [HasType, hc] at hw

theorem liftFields_outcome (l : Lifter) : ∀ (vs : List FactValue) {fields : FieldTypes},
    HaveTypes l.registry vs fields →
    l.Outcome (SomeHoldsOddCell l.registry vs fields) (l.liftFields fields vs)
  | [], [], _ => by
    simp only [SomeHoldsOddCell, liftFields]
    exact .of_ok _
  | [], _ :: _, ht => by simp [HaveTypes] at ht
  | _ :: _, [], ht => by simp [HaveTypes] at ht
  | v :: vs, (name, type) :: fields, ht => by
    simp only [HaveTypes] at ht
    have hfirst := lift_outcome l v ht.1
    have hmore := liftFields_outcome l vs ht.2
    simp only [SomeHoldsOddCell, liftFields]
    exact hfirst.bind fun x => hmore.bind_ok fun xs => (name, x) :: xs

end

/-- Some forest's index finds a node under every identifier. -/
theorem exists_total_index : ∃ nodes : NodeIndex, ∀ id, nodes.get? id ≠ none := by
  refine ⟨⟨(List.finRange (2 ^ 64)).map fun i => (⟨⟨⟨i⟩⟩⟩, .mk 0 "" "" [])⟩, ?_⟩
  intro id hnone
  have hkey := Entries.lookup_eq_none_iff.mp hnone
  apply hkey
  rw [List.map_map, List.mem_map]
  exact ⟨id.toBitVec.toFin, List.mem_finRange _, rfl⟩

/-- An accepted value is lifted or refers to no node, whatever the trees are, just when it has no
cell of a list that is not an element and the rest. Such a cell is the only other thing that can
stop it. -/
theorem lift_parse {r : Registry} {type : ColumnType} {text : String} {v : FactValue}
    (h : FactValue.parse r type text = .ok v) :
    ((∀ nodes, (∃ x, lift ⟨r, nodes⟩ v type = .ok x) ∨
        ∃ id, lift ⟨r, nodes⟩ v type = .error (.danglingReference id)) ↔ ¬v.HoldsOddCell r type) ∧
      ∀ nodes, (∃ x, lift ⟨r, nodes⟩ v type = .ok x) ∨
        (∃ id, lift ⟨r, nodes⟩ v type = .error (.danglingReference id) ∧ nodes.get? id = none) ∨
        ∃ name, lift ⟨r, nodes⟩ v type = .error (.parse (.malformedCell name)) ∧
          r.IsOddList name := by
  have hout (nodes : NodeIndex) := lift_outcome ⟨r, nodes⟩ v (FactValue.hasType_of_parse h)
  refine ⟨⟨?_, ?_⟩, ?_⟩
  · intro hlifts hodd
    obtain ⟨nodes, htotal⟩ := exists_total_index
    rcases hout nodes with ⟨x, -, hno⟩ | ⟨id, -, hnone⟩ | ⟨name, hx, -⟩
    · exact hno hodd
    · exact htotal id hnone
    · rcases hlifts nodes with ⟨x, hx'⟩ | ⟨id, hx'⟩ <;> rw [hx] at hx' <;> cases hx'
  · intro hno nodes
    rcases hout nodes with ⟨x, hx, -⟩ | ⟨id, hx, -⟩ | ⟨name, -, -, hodd⟩
    · exact Or.inl ⟨x, hx⟩
    · exact Or.inr ⟨id, hx⟩
    · exact absurd hodd hno
  · intro nodes
    rcases hout nodes with ⟨x, hx, -⟩ | hdangling | ⟨name, hx, hname, -⟩
    · exact Or.inl ⟨x, hx⟩
    · exact Or.inr (Or.inl hdangling)
    · exact Or.inr (Or.inr ⟨name, hx, hname⟩)

/-- Types for runs of ranges: a list of pairs, and one with both bounds in every cell. -/
def rangeTypeDefs : List TypeDef :=
  [.record "Range" [("low", .number), ("high", .number)],
    .record "Ranges" [("first", .named "Range"), ("rest", .named "Ranges")],
    .record "Bounds" [("low", .number), ("high", .number), ("rest", .named "Bounds")]]

def rangeTypes : Registry := ⟨Registry.empty.defs ++ rangeTypeDefs, none⟩

theorem lift_parse_ranges :
    FactValue.parse rangeTypes (.named "Ranges") "[[1, 2], nil]" =
        .ok (.record [.record [.number 1, .number 2], .nil]) ∧
      ∀ nodes, (∃ x, lift ⟨rangeTypes, nodes⟩ (.record [.record [.number 1, .number 2], .nil])
          (.named "Ranges") = .ok x) ∨
        ∃ id, lift ⟨rangeTypes, nodes⟩ (.record [.record [.number 1, .number 2], .nil])
          (.named "Ranges") = .error (.danglingReference id) := by
  have hparse : FactValue.parse rangeTypes (.named "Ranges") "[[1, 2], nil]" =
      .ok (.record [.record [.number 1, .number 2], .nil]) := by decide +kernel
  refine ⟨hparse, (lift_parse hparse).1.mpr ?_⟩
  simp [FactValue.HoldsOddCell, FactValue.SomeHoldsOddCell, Registry.IsOddList, rangeTypes,
    rangeTypeDefs, Registry.record?, Registry.get?, Registry.empty, TypeDef.name, Registry.isConsList,
    ColumnType.name]

/-- A list with two elements in each cell is accepted, and cannot be lifted. -/
theorem lift_parse_bounds :
    Registry.empty.defineAll rangeTypeDefs = .ok rangeTypes ∧
      FactValue.parse rangeTypes (.named "Bounds") "[1, 2, nil]" =
        .ok (.record [.number 1, .number 2, .nil]) ∧
      lift ⟨rangeTypes, ⟨[]⟩⟩ (.record [.number 1, .number 2, .nil]) (.named "Bounds") =
        .error (.parse (.malformedCell "Bounds")) :=
  ⟨by decide +kernel, by decide +kernel, rfl⟩

end Lifter

end TreeFacts
