import Mathlib.Logic.Relation
import TreeFacts.Proofs.Types.Identifier
import TreeFacts.Schema.Derive

namespace TreeFacts

namespace SemanticType

/-- The enumeration list entry that a type names. -/
def entry? : SemanticType → Option String
  | enumeration name | record name | union name => some name
  | _ => none

end SemanticType

namespace Registry

variable {r r' : Registry}

/-- An identifier type or a list type is asked for. -/
inductive Asks : Registry → Registry → Prop
  | identifier {r r' : Registry} {kind : String} {type : ColumnType} :
    r.identifierType kind = .ok (type, r') → Asks r r'
  | list {r r' : Registry} {element type : ColumnType} :
    r.listType element = .ok (type, r') → Asks r r'

/-- Types are asked for one after the other. -/
abbrev Grows (r r' : Registry) : Prop := Relation.ReflTransGen Asks r r'

theorem Grows.preserves {P : Registry → Prop} (hstep : ∀ {r r'}, Asks r r' → P r → P r')
    (h : r.Grows r') (hr : P r) : P r' := by
  induction h with
  | refl => exact hr
  | tail _ hask ih => exact hstep hask ih

theorem Asks.extends (h : r.Asks r') : r.Extends r' := by
  cases h with
  | identifier h => exact identifierType_extends h
  | list h => exact listType_extends h

theorem Grows.extends (h : r.Grows r') : r.Extends r' :=
  h.preserves (fun hask he => he.trans hask.extends) (Extends.refl r)

theorem Grows.identifies (h : r.Grows r') (hi : r.Identifies) : r'.Identifies := by
  refine h.preserves (fun hask hi => ?_) hi
  cases hask with
  | identifier h => exact (identifierType_identifies hi h).1
  | list h => exact listType_identifies hi h

theorem resolve_entry {semantic : SemanticType} {name : String} (hs : semantic.entry? = some name)
    {type : ColumnType} (h : r.resolve semantic = .ok (type, r')) :
    type = .named name ∧ r' = r := by
  have hfound : (if (r.get? name).isSome then Except.ok (ColumnType.named name, r)
      else .error (Error.unknownType name)) = .ok (type, r') := by
    cases semantic <;> cases hs <;> exact h
  split at hfound
  next =>
    cases hfound
    exact ⟨rfl, rfl⟩
  next => cases hfound

theorem resolve_grows {semantic : SemanticType} {type : ColumnType}
    (h : r.resolve semantic = .ok (type, r')) : r.Grows r' := by
  cases semantic with
  | node kind => exact .single (.identifier h)
  | nodeUnion kinds =>
    rcases commonIdentifierType_eq_ok h with ⟨kind, hkind⟩ | ⟨-, rfl⟩
    · exact .single (.identifier hkind)
    · exact .refl
  | enumeration name | record name | union name =>
    obtain ⟨-, rfl⟩ := resolve_entry rfl h
    exact .refl
  | number | text | bool | anyNode | nodeOrKeyword _ =>
    cases h
    exact .refl

end Registry

namespace FieldProjection

variable {r r' : Registry}

theorem derive_eq_ok {kind : String} {field : Field} {p : FieldProjection}
    (h : derive r kind field = .ok (p, r')) :
    ∃ element r₁ valueType, r.resolve field.type = .ok (element, r₁) ∧
      p = ⟨field.name, kind ++ "_" ++ field.name, field.shape, field.type, valueType⟩ ∧
      ((field.shape = .recordList ∧ r₁.listType element = .ok (valueType, r')) ∨
        (field.shape ≠ .recordList ∧ valueType = element ∧ r' = r₁)) := by
  unfold derive at h
  obtain ⟨⟨element, r₁⟩, hresolve, h⟩ := bind_eq_ok.mp h
  simp only at h
  refine ⟨element, r₁, p.valueType, hresolve, ?_⟩
  split at h
  next hshape =>
    obtain ⟨⟨valueType, r₂⟩, hlist, h⟩ := bind_eq_ok.mp h
    cases h
    exact ⟨rfl, Or.inl ⟨hshape, hlist⟩⟩
  next hshape =>
    cases h
    exact ⟨rfl, Or.inr ⟨hshape, rfl, rfl⟩⟩

theorem derive_grows {kind : String} {field : Field} {p : FieldProjection}
    (h : derive r kind field = .ok (p, r')) : r.Grows r' := by
  obtain ⟨element, r₁, valueType, hresolve, -, ⟨-, hlist⟩ | ⟨-, -, rfl⟩⟩ := derive_eq_ok h
  · exact (Registry.resolve_grows hresolve).tail (.list hlist)
  · exact Registry.resolve_grows hresolve

theorem deriveAll_grows {kind : String} {fields : List Field} {ps : List FieldProjection}
    (h : deriveAll kind r fields = .ok (ps, r')) : r.Grows r' := by
  induction fields generalizing r ps with
  | nil =>
    cases h
    exact .refl
  | cons field fields ih =>
    unfold deriveAll at h
    obtain ⟨⟨p, r₁⟩, hp, h⟩ := bind_eq_ok.mp h
    obtain ⟨⟨rest, r₂⟩, hrest, h⟩ := bind_eq_ok.mp h
    cases h
    exact (derive_grows hp).trans (ih hrest)

end FieldProjection

namespace KindSchema

variable {r r' : Registry} {skip : SkipSet}

theorem derive_eq_ok {kind : NodeKind} {k : KindSchema} (h : derive skip r kind = .ok (k, r')) :
    ∃ idType r₁ ps, r.identifierType kind.name = .ok (idType, r₁) ∧
      FieldProjection.deriveAll kind.name r₁ (if kind.isAbstract then [] else
        kind.fields.filter fun field => !skip.contains kind.name field.name) = .ok (ps, r') ∧
      k = ⟨kind.name, kind.base, kind.isAbstract, idType, ps⟩ := by
  unfold derive at h
  obtain ⟨⟨idType, r₁⟩, hid, h⟩ := bind_eq_ok.mp h
  obtain ⟨⟨ps, r₂⟩, hps, h⟩ := bind_eq_ok.mp h
  cases h
  exact ⟨idType, r₁, ps, hid, hps, rfl⟩

theorem derive_grows {kind : NodeKind} {k : KindSchema}
    (h : derive skip r kind = .ok (k, r')) :
    ∃ r₁, r.identifierType k.name = .ok (k.idType, r₁) ∧ r₁.Grows r' := by
  obtain ⟨idType, r₁, ps, hid, hps, rfl⟩ := derive_eq_ok h
  exact ⟨r₁, hid, FieldProjection.deriveAll_grows hps⟩

/-- The kinds of a schema are derived by asking for types, the identifier type of each among them. -/
theorem deriveAll_grows {kinds : List NodeKind} {ks : List KindSchema}
    (h : deriveAll skip r kinds = .ok (ks, r')) :
    r.Grows r' ∧ ∀ k ∈ ks, ∃ r₁ r₂, r.Grows r₁ ∧ r₁.identifierType k.name = .ok (k.idType, r₂) ∧
      r₂.Grows r' := by
  induction kinds generalizing r ks with
  | nil =>
    cases h
    exact ⟨.refl, by simp⟩
  | cons kind kinds ih =>
    unfold deriveAll at h
    obtain ⟨⟨k, r₁⟩, hk, h⟩ := bind_eq_ok.mp h
    obtain ⟨⟨rest, r₂⟩, hrest, h⟩ := bind_eq_ok.mp h
    cases h
    obtain ⟨r₀, hid, hfields⟩ := derive_grows hk
    obtain ⟨hgrows, hall⟩ := ih hrest
    have hfirst : r.Grows r₁ := .head (.identifier hid) hfields
    refine ⟨hfirst.trans hgrows, ?_⟩
    intro q hq
    rcases List.mem_cons.mp hq with rfl | hq
    · exact ⟨r, r₀, .refl, hid, hfields.trans hgrows⟩
    · obtain ⟨r₃, r₄, hbefore, hask, hafter⟩ := hall q hq
      exact ⟨r₃, r₄, hfirst.trans hbefore, hask, hafter⟩

end KindSchema

end TreeFacts
