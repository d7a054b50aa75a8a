import TreeFacts.Proofs.Encoding.Slots
import TreeFacts.Proofs.Encoding.Typing
import TreeFacts.Proofs.Lifting.Lift

namespace TreeFacts

/-- Text that stands for a node or is one's name. -/
def Value.label? : Value → Option String
  | .text keyword => some keyword
  | .node n => n.name?
  | _ => none

namespace SemanticType

/-- An element of a field in terms of the tree. A reference is the embedded node itself or the one of
the given nodes that it names; text is as it stands in a column. -/
def LiftsTo (semantic : SemanticType) (nodes : List Node) (v : Value) (x : Lifted) : Prop :=
  match semantic with
  | .number => x = .number (v.int?.getD absentId)
  | .bool => x = .bool (v.bool?.getD false)
  | .text | .record _ | .union _ => x = .text (sanitize (v.text?.getD ""))
  | .enumeration _ => x = .text (v.text?.getD "")
  | .nodeOrKeyword _ => x = .text (sanitize (v.label?.getD ""))
  | .node _ | .anyNode | .nodeUnion _ =>
    match v with
    | .node n => x = .node n
    | .int id => (id = absentId ∧ x = .absent) ∨
      (id ≠ absentId ∧ ∃ n ∈ nodes, n.id = id ∧ x = .node n)
    | .null => x = .absent
    | _ => False

end SemanticType

/-- An identifier that is none of the given nodes' and does not mean that there is none. -/
def Missing (nodes : List Node) (id : NodeId) : Prop := id ≠ absentId ∧ ∀ n ∈ nodes, n.id ≠ id

namespace Lifter

variable {l : Lifter} {nodes : List Node}

/-- The lifter finds the given nodes, each under its identifier, and no others. -/
structure Knows (l : Lifter) (nodes : List Node) : Prop where
  get?_eq_some : ∀ id n, l.nodes.get? id = some n ↔ n.id = id ∧ n ∈ nodes
  nonneg : ∀ n ∈ nodes, 0 ≤ n.id

theorem Knows.ne_absentId (hk : l.Knows nodes) {n : Node} (hn : n ∈ nodes) : n.id ≠ absentId := by
  intro heq
  have hpos := hk.nonneg n hn
  rw [heq] at hpos
  exact absurd hpos (by decide)

theorem Knows.liftReference_node (hk : l.Knows nodes) {n : Node} (hn : n ∈ nodes) :
    l.liftReference n.id = .ok (.node n) :=
  liftReference_of_get? (hk.ne_absentId hn) ((hk.get?_eq_some n.id n).mpr ⟨rfl, hn⟩)

theorem Knows.lift_node (hk : l.Knows nodes) {type : ColumnType}
    (hc : l.registry.classify type = .ok .nodeId) {n : Node} (hn : n ∈ nodes) :
    l.lift (.number n.id) type = .ok (.node n) := by
  rw [lift_identifier hc, hk.liftReference_node hn]

/-- A bare identifier is that of a node, or means that there is none, or dangles. -/
theorem Knows.liftReference_cases (hk : l.Knows nodes) (id : NodeId) :
    (id = absentId ∧ l.liftReference id = .ok .absent) ∨
      (id ≠ absentId ∧ ∃ n ∈ nodes, n.id = id ∧ l.liftReference id = .ok (.node n)) ∨
      (Missing nodes id ∧ l.liftReference id = .error (.danglingReference id)) := by
  by_cases hid : id = absentId
  · exact Or.inl ⟨hid, by rw [liftReference, if_pos hid]⟩
  · cases hget : l.nodes.get? id with
    | some n =>
      obtain ⟨hn, hmem⟩ := (hk.get?_eq_some id n).mp hget
      exact Or.inr (Or.inl ⟨hid, n, hmem, hn, liftReference_of_get? hid hget⟩)
    | none =>
      refine Or.inr (Or.inr ⟨⟨hid, ?_⟩, liftReference_of_get?_none hid hget⟩)
      intro n hn heq
      rw [(hk.get?_eq_some id n).mpr ⟨heq, hn⟩] at hget
      cases hget

variable {semantic : SemanticType} {column : ColumnType}

/-- An embedded node is lifted to itself, and a bare identifier to its node unless it dangles. -/
theorem Knows.lift_reference (hk : l.Knows nodes) (href : semantic.isReference = true)
    (hc : l.registry.classify column = .ok semantic.valueClass) {v : Value}
    (hv : ∀ n ∈ v.nodes, n ∈ nodes) {w : FactValue} (hw : semantic.content? v = some w) :
    (∃ x, l.lift w column = .ok x ∧ semantic.LiftsTo nodes v x) ∨
      ∃ id, l.lift w column = .error (.danglingReference id) ∧ semantic.isReference = true ∧
        v = .int id ∧ Missing nodes id := by
  cases semantic with
  | node _ | anyNode | nodeUnion _ =>
    cases v with
    | null =>
      cases hw
      refine Or.inl ⟨.absent, ?_, rfl⟩
      rw [lift_identifier hc, liftReference, if_pos rfl]
    | node n =>
      cases hw
      have hn : n ∈ nodes := hv n (by simp [Value.nodes])
      exact Or.inl ⟨.node n, hk.lift_node hc hn, rfl⟩
    | int id =>
      cases hw
      rw [lift_identifier hc]
      rcases hk.liftReference_cases id with ⟨hid, hlift⟩ | ⟨hid, n, hn, heq, hlift⟩ | ⟨hid, hlift⟩
      · exact Or.inl ⟨.absent, hlift, Or.inl ⟨hid, rfl⟩⟩
      · exact Or.inl ⟨.node n, hlift, Or.inr ⟨hid, n, hn, heq, rfl⟩⟩
      · exact Or.inr ⟨id, hlift, rfl, rfl, hid⟩
    | bool _ | text _ | list _ | map _ => cases hw
  | number | bool | text | record _ | union _ | enumeration _ | nodeOrKeyword _ => cases href

/-- What an element stands for is lifted back, unless it is a dangling bare identifier. -/
theorem Knows.lift_content (hk : l.Knows nodes)
    (hc : l.registry.classify column = .ok semantic.valueClass) {v : Value}
    (hv : ∀ n ∈ v.nodes, n ∈ nodes) {w : FactValue} (hw : semantic.content? v = some w) :
    (∃ x, l.lift w column = .ok x ∧ semantic.LiftsTo nodes v x) ∨
      ∃ id, l.lift w column = .error (.danglingReference id) ∧ semantic.isReference = true ∧
        v = .int id ∧ Missing nodes id := by
  cases semantic with
  | number =>
    obtain ⟨n, hn, rfl⟩ := Option.map_eq_some_iff.mp hw
    exact Or.inl ⟨_, lift_number hc n, by simp only [SemanticType.LiftsTo, hn, Option.getD_some]⟩
  | bool =>
    obtain ⟨b, hb, rfl⟩ := Option.map_eq_some_iff.mp hw
    refine Or.inl ⟨_, lift_bool hc _, ?_⟩
    simp only [SemanticType.LiftsTo, hb, Option.getD_some]
    cases b <;> rfl
  | text | record _ | union _ | enumeration _ =>
    obtain ⟨s, hs, rfl⟩ := Option.map_eq_some_iff.mp hw
    exact Or.inl ⟨_, lift_symbol hc _, by simp only [SemanticType.LiftsTo, hs, Option.getD_some]⟩
  | nodeOrKeyword _ =>
    cases v with
    | text s =>
      cases hw
      exact Or.inl ⟨_, lift_symbol hc _, rfl⟩
    | node n =>
      obtain ⟨s, hs, rfl⟩ := Option.map_eq_some_iff.mp hw
      refine Or.inl ⟨_, lift_symbol hc _, ?_⟩
      simp only [SemanticType.LiftsTo, Value.label?, hs, Option.getD_some]
    | null | bool _ | int _ | list _ | map _ => cases hw
  | node _ | anyNode | nodeUnion _ => exact hk.lift_reference rfl hc hv hw

theorem lift_absent (hc : l.registry.classify column = .ok semantic.valueClass) {v : Value}
    (hv : v.isNull = true) :
    ∃ x, l.lift semantic.absent column = .ok x ∧ semantic.LiftsTo nodes v x := by
  have hnull : v = .null := by
    cases v with
    | null => rfl
    | bool _ | int _ | text _ | node _ | list _ | map _ => cases hv
  subst hnull
  cases semantic with
  | number => exact ⟨_, lift_number hc absentId, rfl⟩
  | bool => exact ⟨_, lift_bool hc absentId, rfl⟩
  | text | record _ | union _ | enumeration _ | nodeOrKeyword _ =>
    exact ⟨_, lift_symbol hc "", rfl⟩
  | node _ | anyNode | nodeUnion _ =>
    exact ⟨.absent, (lift_identifier hc absentId).trans (if_pos rfl), rfl⟩

theorem Knows.mapM_lift_content (hk : l.Knows nodes)
    (hc : l.registry.classify column = .ok semantic.valueClass) {items : List Value}
    (hv : ∀ item ∈ items, ∀ n ∈ item.nodes, n ∈ nodes) {ws : List FactValue}
    (hw : List.Forall₂ (fun item w => semantic.content? item = some w) items ws) :
    (∃ xs, (ws.mapM fun w => l.lift w column) = .ok xs ∧
        List.Forall₂ (semantic.LiftsTo nodes) items xs) ∨
      ∃ id, (ws.mapM fun w => l.lift w column) = .error (.danglingReference id) ∧
        semantic.isReference = true ∧ .int id ∈ items ∧ Missing nodes id := by
  induction hw with
  | nil => exact Or.inl ⟨[], rfl, .nil⟩
  | @cons item w items ws hitem hrest ih =>
    have hfirst := hk.lift_content hc (hv item List.mem_cons_self) hitem
    have hmore := ih fun other hother => hv other (List.mem_cons_of_mem _ hother)
    rcases hfirst with ⟨x, hx, hlifts⟩ | ⟨id, hid, href, rfl, hmissing⟩
    · rcases hmore with ⟨xs, hxs, hall⟩ | ⟨id, hid, href, hmem, hmissing⟩
      · refine Or.inl ⟨x :: xs, ?_, .cons hlifts hall⟩
        rw [List.mapM_cons, hx, hxs]
        rfl
      · refine Or.inr ⟨id, ?_, href, List.mem_cons_of_mem _ hmem, hmissing⟩
        rw [List.mapM_cons, hx, hid]
        rfl
    · refine Or.inr ⟨id, ?_, href, List.mem_cons_self, hmissing⟩
      rw [List.mapM_cons, hid]
      rfl

end Lifter

namespace FieldProjection

variable {p : FieldProjection} {c : FieldContext} {l : Lifter} {nodes : List Node}

/-- A cell in terms of the tree: the element it is, or the list of its elements in order. -/
def LiftsTo (p : FieldProjection) (nodes : List Node) (v : Value) (x : Lifted) : Prop :=
  if p.shape = .recordList then
    ∃ xs, x = .list xs ∧ List.Forall₂ (p.semantic.LiftsTo nodes) v.items xs
  else p.semantic.LiftsTo nodes v x

/-- A reference of the cell is written as a bare identifier. -/
def Writes (p : FieldProjection) (v : Value) (id : NodeId) : Prop :=
  p.isReference = true ∧ if p.shape = .recordList then .int id ∈ v.items else v = .int id

/-- A cell is lifted back, unless a bare identifier that it is made from dangles. -/
theorem lift_cell (hk : l.Knows nodes) (hf : p.Fits l.registry) (hr : c.registry = l.registry)
    {v : Value} (hv : ∀ n ∈ v.nodes, n ∈ nodes) {w : FactValue} (hw : p.cell c v = .ok w) :
    (∃ x, l.lift w p.valueType = .ok x ∧ p.LiftsTo nodes v x) ∨
      ∃ id, l.lift w p.valueType = .error (.danglingReference id) ∧ p.Writes v id ∧
        Missing nodes id := by
  have hfc : p.Fits c.registry := hr ▸ hf
  unfold LiftsTo Writes
  by_cases hs : p.shape = .recordList
  · obtain ⟨element, ws, hl, hc, hws, rfl⟩ := cell_eq_ok_of_recordList hfc hs hw
    rw [hr] at hl hc
    simp only [Lifter.lift_ofList hl, if_pos hs]
    have hitems := hk.mapM_lift_content hc
      (fun item hitem n hn => hv n (Value.mem_nodes_of_mem_items hitem hn)) hws
    rcases hitems with ⟨xs, hxs, hall⟩ | ⟨id, hid, href, hmem, hmissing⟩
    · exact Or.inl ⟨.list xs, by rw [hxs]; rfl, xs, rfl, hall⟩
    · exact Or.inr ⟨id, by rw [hid]; rfl, ⟨href, hmem⟩, hmissing⟩
  · have hc := hf.value hs
    simp only [if_neg hs]
    rcases cell_eq_ok hfc hs hw with ⟨hnull, rfl⟩ | hcontent
    · exact Or.inl (Lifter.lift_absent hc hnull)
    · rcases hk.lift_content hc hv hcontent with hx | ⟨id, hid, href, heq, hmissing⟩
      · exact Or.inl hx
      · exact Or.inr ⟨id, hid, ⟨href, heq⟩, hmissing⟩

end FieldProjection

end TreeFacts
