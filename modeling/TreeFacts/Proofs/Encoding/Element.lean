import TreeFacts.Encoding.Field
import TreeFacts.Proofs.Fact.Typing
import TreeFacts.Proofs.Schema.Typing

namespace TreeFacts

namespace SemanticType

/-- What an element of a field stands for in a column, where whatever the enumeration list names is a
type of symbols. -/
def content? (semantic : SemanticType) (v : Value) : Option FactValue :=
  match semantic with
  | .number => v.int?.map .number
  | .bool => v.bool?.map .ofBool
  | .text | .record _ | .union _ => v.text?.map fun s => .symbol (sanitize s)
  | .enumeration _ => v.text?.map .symbol
  | .node _ | .anyNode | .nodeUnion _ =>
    if v.isNull then some (.number absentId) else v.nodeId?.map .number
  | .nodeOrKeyword _ =>
    match v with
    | .text keyword => some (.symbol (sanitize keyword))
    | .node n => n.name?.map fun s => .symbol (sanitize s)
    | _ => none

/-- What stands for a value that is absent. -/
def absent (semantic : SemanticType) : FactValue :=
  match semantic.valueClass with
  | .symbol => .symbol ""
  | _ => .number absentId

end SemanticType

namespace FactValue

variable {r : Registry} {column : ColumnType}

theorem hasType_number {c : TypeClass} (hc : r.classify column = .ok c)
    (h : c = .number ∨ c = .bool ∨ c = .nodeId) (n : Int64) : HasType r (.number n) column := by
  simp only [HasType]
  exact ⟨c, hc, h⟩

theorem hasType_symbol (hc : r.classify column = .ok .symbol) (s : String) :
    HasType r (.symbol s) column := by
  simp only [HasType]
  exact hc

theorem hasType_ofList {element : ColumnType} (hl : r.IsListOf column element)
    {items : List FactValue} (h : ∀ item ∈ items, HasType r item element) :
    HasType r (ofList items) column := by
  induction items with
  | nil =>
    simp only [ofList, List.foldr_nil, HasType]
    exact ⟨hl.1, _, hl.2⟩
  | cons item items ih =>
    have htail := ih fun other hother => h other (List.mem_cons_of_mem _ hother)
    have hhead := h item List.mem_cons_self
    simp only [ofList, List.foldr_cons, HasType]
    refine ⟨hl.1, _, hl.2, ?_⟩
    simp only [HaveTypes]
    exact ⟨hhead, htail, trivial⟩

end FactValue

theorem haveTypes_append {r : Registry} {vs ws : List FactValue} {fields more : FieldTypes}
    (hv : HaveTypes r vs fields) (hw : HaveTypes r ws more) :
    HaveTypes r (vs ++ ws) (fields ++ more) := by
  induction vs generalizing fields with
  | nil =>
    cases fields with
    | nil => exact hw
    | cons field fields => simp [HaveTypes] at hv
  | cons v vs ih =>
    cases fields with
    | nil => simp [HaveTypes] at hv
    | cons field fields =>
      simp only [HaveTypes] at hv
      simp only [List.cons_append, HaveTypes]
      exact ⟨hv.1, ih hv.2⟩

namespace SemanticType

variable {r : Registry} {semantic : SemanticType} {column : ColumnType}

theorem content?_hasType (hc : r.classify column = .ok semantic.valueClass) {v : Value}
    {w : FactValue} (h : semantic.content? v = some w) : HasType r w column := by
  cases semantic with
  | number =>
    obtain ⟨n, -, rfl⟩ := Option.map_eq_some_iff.mp h
    exact FactValue.hasType_number hc (Or.inl rfl) n
  | bool =>
    obtain ⟨b, -, rfl⟩ := Option.map_eq_some_iff.mp h
    exact FactValue.hasType_number hc (Or.inr (Or.inl rfl)) _
  | text | record _ | union _ | enumeration _ =>
    obtain ⟨s, -, rfl⟩ := Option.map_eq_some_iff.mp h
    exact FactValue.hasType_symbol hc _
  | node _ | anyNode | nodeUnion _ =>
    have hnumber := FactValue.hasType_number hc (Or.inr (Or.inr rfl))
    simp only [content?] at h
    split at h
    next =>
      cases h
      exact hnumber absentId
    next =>
      obtain ⟨n, -, rfl⟩ := Option.map_eq_some_iff.mp h
      exact hnumber n
  | nodeOrKeyword _ =>
    have hsymbol := FactValue.hasType_symbol hc
    cases v with
    | text s =>
      cases h
      exact hsymbol _
    | node n =>
      obtain ⟨s, -, rfl⟩ := Option.map_eq_some_iff.mp h
      exact hsymbol _
    | null | bool _ | int _ | list _ | map _ => cases h

theorem absent_hasType (hc : r.classify column = .ok semantic.valueClass) :
    HasType r semantic.absent column := by
  cases semantic with
  | number => exact FactValue.hasType_number hc (Or.inl rfl) absentId
  | bool => exact FactValue.hasType_number hc (Or.inr (Or.inl rfl)) absentId
  | node _ | anyNode | nodeUnion _ =>
    exact FactValue.hasType_number hc (Or.inr (Or.inr rfl)) absentId
  | text | nodeOrKeyword _ | enumeration _ | record _ | union _ =>
    exact FactValue.hasType_symbol hc ""

end SemanticType

theorem Reading.of_value_symbol {c : FieldContext} {column : ColumnType}
    (hc : c.registry.classify column = .ok .symbol) (v : Value) :
    (Reading.of c v).value column =
      (c.require (.noText (some column)) v.text?).map fun s => .symbol (sanitize s) := by
  have hvalue : ∀ fields branch, (Reading.ofValue c v fields branch).value column =
      (c.require (.noText (some column)) v.text?).map fun s => .symbol (sanitize s) := by
    intro fields branch
    simp only [Reading.ofValue, hc, ok_bind]
  cases v <;> simp only [Reading.of, Reading.absent] <;> exact hvalue _ _

namespace FieldContext

variable {c : FieldContext} {semantic : SemanticType} {column : ColumnType}

theorem require_map {α β : Type} (c : FieldContext) (f : FieldFault) (o : Option α) (g : α → β) :
    (∃ b, o.map g = some b ∧ (c.require f o).map g = .ok b) ∨
      (o.map g = none ∧ (c.require f o).map g = .error (c.fault f)) := by
  cases o with
  | none => exact Or.inr ⟨rfl, rfl⟩
  | some a => exact Or.inl ⟨g a, rfl, rfl⟩

/-- An element becomes what it stands for in the column, or else is a fault of its field. -/
theorem element_cases (hc : c.registry.classify column = .ok semantic.valueClass) (v : Value) :
    (∃ w, semantic.content? v = some w ∧ c.element semantic column v = .ok w) ∨
      (semantic.content? v = none ∧ ∃ f, c.element semantic column v = .error (c.fault f)) := by
  have hrequire {α : Type} (f : FieldFault) (o : Option α) (g : α → FactValue) :
      (∃ w, o.map g = some w ∧ (c.require f o).map g = .ok w) ∨
        (o.map g = none ∧ ∃ f', (c.require f o).map g = .error (c.fault f')) :=
    (c.require_map f o g).imp_right fun h => ⟨h.1, f, h.2⟩
  cases semantic with
  | number => exact hrequire (.noNumber none) v.int? .number
  | bool => exact hrequire (.noBoolean none) v.bool? .ofBool
  | text => exact hrequire (.noText none) v.text? _
  | enumeration _ => exact hrequire .noKeyword v.text? .symbol
  | record _ | union _ =>
    have hread := Reading.of_value_symbol hc v
    simp only [element, hread]
    exact hrequire (.noText (some column)) v.text? _
  | node _ | anyNode | nodeUnion _ =>
    simp only [SemanticType.content?, element]
    split
    next => exact Or.inl ⟨_, rfl, rfl⟩
    next => exact hrequire (.noReference none) v.nodeId? .number
  | nodeOrKeyword _ =>
    cases v with
    | text s => exact Or.inl ⟨_, rfl, rfl⟩
    | node n => exact hrequire (.unnamedNode n.id) n.name? _
    | null | bool _ | int _ | list _ | map _ => exact Or.inr ⟨rfl, .noNodeOrKeyword, rfl⟩

theorem element_eq_ok (hc : c.registry.classify column = .ok semantic.valueClass) {v : Value}
    {w : FactValue} (h : c.element semantic column v = .ok w) : semantic.content? v = some w := by
  rcases element_cases hc v with ⟨w', hw, heq⟩ | ⟨-, f, heq⟩
  · rw [heq] at h
    cases h
    exact hw
  · rw [heq] at h
    cases h

theorem element_eq_error (hc : c.registry.classify column = .ok semantic.valueClass) {v : Value}
    {e : Error} (h : c.element semantic column v = .error e) : ∃ f, e = c.fault f := by
  rcases element_cases hc v with ⟨w, -, heq⟩ | ⟨-, f, heq⟩
  · rw [heq] at h
    cases h
  · rw [heq] at h
    cases h
    exact ⟨f, rfl⟩

theorem sentinel_eq (hc : c.registry.classify column = .ok semantic.valueClass) :
    c.sentinel column = .ok semantic.absent := by
  cases semantic <;> simp only [sentinel, hc, ok_bind] <;> rfl

end FieldContext

end TreeFacts
