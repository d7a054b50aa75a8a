import TreeFacts.Lifting.Lift
import TreeFacts.Proofs.Fact.Typing
import TreeFacts.Proofs.Result

namespace TreeFacts

namespace Registry

/-- The types of the fields that a record type declares. -/
def fieldTypes (r : Registry) (type : ColumnType) : List ColumnType :=
  ((r.record? type.name).getD []).map (·.2)

/-- The types at which a record is lifted part by part: those of its fields, or in a cell of a list
the element's and the list's own. -/
def liftedTypes (r : Registry) (type : ColumnType) : List ColumnType :=
  if r.isConsList type.name then [(r.fieldTypes type).headD type, type] else r.fieldTypes type

/-- The types of the arguments of a branch. -/
def branchTypes (r : Registry) (type : ColumnType) (tag : String) : List ColumnType :=
  ((((r.union? type.name).getD []).find? (·.name == tag)).map (·.fields)).getD [] |>.map (·.2)

theorem fieldTypes_eq {r : Registry} {type : ColumnType} {fields : FieldTypes}
    (hf : r.record? type.name = some fields) : r.fieldTypes type = fields.map (·.2) := by
  rw [fieldTypes, hf, Option.getD_some]

theorem branchTypes_eq {r : Registry} {type : ColumnType} {branches : List Branch} {b : Branch}
    {tag : String} (hb : r.union? type.name = some branches)
    (hfind : branches.find? (·.name == tag) = some b) :
    r.branchTypes type tag = b.fields.map (·.2) := by
  rw [branchTypes, hb, Option.getD_some, hfind, Option.map_some, Option.getD_some]

end Registry

namespace FactValue

/-- The first value is the second or stands in it, each read at its type; `parts` gives the types at
which the parts of a record are read. -/
inductive Component (r : Registry) (parts : ColumnType → List ColumnType) (w : FactValue)
    (own : ColumnType) : FactValue → ColumnType → Prop
  | self : Component r parts w own w own
  | record {vs : List FactValue} {type : ColumnType} {v : FactValue} {t : ColumnType} :
    (v, t) ∈ vs.zip (parts type) → Component r parts w own v t →
    Component r parts w own (.record vs) type
  | branch {tag : String} {args : List FactValue} {type : ColumnType} {v : FactValue}
    {t : ColumnType} : (v, t) ∈ args.zip (r.branchTypes type tag) →
    Component r parts w own v t → Component r parts w own (.branch tag args) type

end FactValue

namespace Lifter

variable {l : Lifter} {type : ColumnType} {v : FactValue} {x : Lifted}

/-- What a value is lifted to, by what it is and what its type is. -/
inductive LiftsAs (l : Lifter) (type : ColumnType) : FactValue → Lifted → Prop
  | number (n : Int64) : l.registry.classify type = .ok .number →
    LiftsAs l type (.number n) (.number n)
  | symbol (s : String) : l.registry.classify type = .ok .symbol →
    LiftsAs l type (.symbol s) (.text s)
  | bool (n : Int64) : l.registry.classify type = .ok .bool →
    LiftsAs l type (.number n) (.bool (n = 1))
  | absent : l.registry.classify type = .ok .nodeId → LiftsAs l type (.number absentId) .absent
  | node {id : NodeId} {n : Node} : l.registry.classify type = .ok .nodeId →
    l.nodes.get? id = some n → LiftsAs l type (.number id) (.node n)
  | emptyList {fields : FieldTypes} : l.registry.classify type = .ok .record →
    l.registry.record? type.name = some fields → l.registry.isConsList type.name = true →
    LiftsAs l type .nil (.list [])
  | missing {fields : FieldTypes} : l.registry.classify type = .ok .record →
    l.registry.record? type.name = some fields → l.registry.isConsList type.name = false →
    LiftsAs l type .nil .absent
  | list {fields : FieldTypes} {cell : List FactValue} {items : List Lifted} :
    l.registry.classify type = .ok .record → l.registry.record? type.name = some fields →
    l.registry.isConsList type.name = true →
    l.liftCell type.name ((l.registry.fieldTypes type).headD type) cell = .ok items →
    LiftsAs l type (.record cell) (.list items)
  | record {fields : FieldTypes} {vs : List FactValue} {xs : List (String × Lifted)} :
    l.registry.classify type = .ok .record → l.registry.record? type.name = some fields →
    l.registry.isConsList type.name = false → vs.length = fields.length →
    l.liftFields fields vs = .ok xs → LiftsAs l type (.record vs) (.record xs)
  | variant {branches : List Branch} {tag : String} {b : Branch} {args : List FactValue}
    {xs : List (String × Lifted)} : l.registry.classify type = .ok .union →
    l.registry.union? type.name = some branches → branches.find? (·.name == tag) = some b →
    args.length = b.fields.length → l.liftFields b.fields args = .ok xs →
    LiftsAs l type (.branch tag args) (.variant tag xs)

theorem liftReference_eq_ok {id : NodeId} (h : l.liftReference id = .ok x) :
    (id = absentId ∧ x = .absent) ∨ ∃ n, l.nodes.get? id = some n ∧ x = .node n := by
  unfold liftReference at h
  split at h
  next hid =>
    cases h
    exact Or.inl ⟨hid, rfl⟩
  next =>
    split at h
    next n hn =>
      cases h
      exact Or.inr ⟨n, hn, rfl⟩
    next => cases h

theorem liftsAs_number {n : Int64} (h : l.lift (.number n) type = .ok x) :
    LiftsAs l type (.number n) x := by
  unfold lift at h
  obtain ⟨c, hc, h⟩ := bind_eq_ok.mp h
  cases c with
  | number =>
    cases h
    exact .number n hc
  | bool =>
    cases h
    exact .bool n hc
  | nodeId =>
    rcases liftReference_eq_ok h with ⟨rfl, rfl⟩ | ⟨node, hnode, rfl⟩
    · exact .absent hc
    · exact .node hc hnode
  | symbol | record | union => cases h

theorem liftsAs_symbol {s : String} (h : l.lift (.symbol s) type = .ok x) :
    LiftsAs l type (.symbol s) x := by
  unfold lift at h
  obtain ⟨c, hc, h⟩ := bind_eq_ok.mp h
  cases c with
  | symbol =>
    cases h
    exact .symbol s hc
  | number | bool | nodeId | record | union => cases h

theorem liftsAs_nil (h : l.lift .nil type = .ok x) : LiftsAs l type .nil x := by
  unfold lift at h
  obtain ⟨c, hc, h⟩ := bind_eq_ok.mp h
  cases c with
  | record =>
    cases hf : l.registry.record? type.name with
    | none => simp only [liftAtom, hf] at h; cases h
    | some fields =>
      simp only [liftAtom, hf] at h
      split at h
      next hcons =>
        cases h
        exact .emptyList hc hf hcons
      next hcons =>
        cases h
        exact .missing hc hf (Bool.not_eq_true _ ▸ hcons)
  | number | symbol | bool | nodeId | union => cases h

theorem liftsAs_record {vs : List FactValue} (h : l.lift (.record vs) type = .ok x) :
    LiftsAs l type (.record vs) x := by
  unfold lift at h
  obtain ⟨c, hc, h⟩ := bind_eq_ok.mp h
  cases c with
  | record =>
    cases hf : l.registry.record? type.name with
    | none => simp only [hf] at h; cases h
    | some fields =>
      simp only [hf] at h
      split at h
      next hcons =>
        obtain ⟨items, hitems, rfl⟩ := map_eq_ok.mp h
        have helement : (l.registry.fieldTypes type).headD type =
            (fields.head?.map (·.2)).getD type := by
          rw [Registry.fieldTypes_eq hf, List.headD_eq_head?_getD, List.head?_map]
        exact .list hc hf hcons (helement ▸ hitems)
      next hcons =>
        split at h
        next hlen =>
          obtain ⟨xs, hxs, rfl⟩ := map_eq_ok.mp h
          exact .record hc hf (Bool.not_eq_true _ ▸ hcons) hlen hxs
        next => cases h
  | number | symbol | bool | nodeId | union => cases h

theorem liftsAs_branch {tag : String} {args : List FactValue}
    (h : l.lift (.branch tag args) type = .ok x) : LiftsAs l type (.branch tag args) x := by
  unfold lift at h
  obtain ⟨c, hc, h⟩ := bind_eq_ok.mp h
  cases c with
  | union =>
    simp only at h
    split at h
    next => cases h
    next b hfind =>
      split at h
      next hlen =>
        obtain ⟨xs, hxs, rfl⟩ := map_eq_ok.mp h
        cases hb : l.registry.union? type.name with
        | none => simp [hb] at hfind
        | some branches =>
          rw [hb, Option.getD_some] at hfind
          exact .variant hc hb hfind hlen.symm hxs
      next => cases h
  | number | symbol | bool | nodeId | record => cases h

theorem liftsAs_of_lift (h : l.lift v type = .ok x) : LiftsAs l type v x := by
  cases v with
  | number n => exact liftsAs_number h
  | symbol s => exact liftsAs_symbol h
  | nil => exact liftsAs_nil h
  | record vs => exact liftsAs_record h
  | branch tag args => exact liftsAs_branch h

/-- A cell is an element and the rest: the end of the list or its next cell. -/
theorem liftCell_eq_ok {name : String} {element : ColumnType} {cell : List FactValue}
    {items : List Lifted} (h : l.liftCell name element cell = .ok items) :
    ∃ head rest item more, cell = [head, rest] ∧ l.lift head element = .ok item ∧
      items = item :: more ∧ ((rest = .nil ∧ more = []) ∨
        ∃ next, rest = .record next ∧ l.liftCell name element next = .ok more) := by
  unfold liftCell at h
  split at h
  next head =>
    obtain ⟨item, hitem, h⟩ := bind_eq_ok.mp h
    cases h
    exact ⟨head, .nil, item, [], rfl, hitem, rfl, Or.inl ⟨rfl, rfl⟩⟩
  next head next =>
    obtain ⟨item, hitem, h⟩ := bind_eq_ok.mp h
    obtain ⟨more, hmore, h⟩ := bind_eq_ok.mp h
    cases h
    exact ⟨head, .record next, item, more, rfl, hitem, rfl, Or.inr ⟨next, rfl, hmore⟩⟩
  next => cases h

theorem liftFields_cons_eq_ok {name : String} {fields : FieldTypes} {vs : List FactValue}
    {xs : List (String × Lifted)} (h : l.liftFields ((name, type) :: fields) (v :: vs) = .ok xs) :
    ∃ x more, l.lift v type = .ok x ∧ l.liftFields fields vs = .ok more ∧
      xs = (name, x) :: more := by
  unfold liftFields at h
  obtain ⟨x, hx, h⟩ := bind_eq_ok.mp h
  obtain ⟨more, hmore, h⟩ := bind_eq_ok.mp h
  cases h
  exact ⟨x, more, hx, hmore, rfl⟩

end Lifter

end TreeFacts
