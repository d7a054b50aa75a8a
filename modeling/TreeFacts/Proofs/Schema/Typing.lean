import TreeFacts.Proofs.Schema.Growth

namespace TreeFacts

namespace SemanticType

/-- The class of the values of a type. Whatever the enumeration list names is a type of symbols. -/
def valueClass : SemanticType → TypeClass
  | number => .number
  | bool => .bool
  | node _ | anyNode | nodeUnion _ => .nodeId
  | text | nodeOrKeyword _ | enumeration _ | record _ | union _ => .symbol

end SemanticType

/-- Fields name entries of the enumeration list, and no entry has the name of the identifier type of
a kind. -/
structure Grammar.NamesEnums (g : Grammar) : Prop where
  declared : ∀ kind ∈ g.kinds, ∀ field ∈ kind.fields, ∀ name ∈ field.type.entry?, name ∈ g.enums
  distinct : ∀ name ∈ g.enums, ∀ kind ∈ g.kinds, name ≠ kind.name ++ "Id"

namespace Registry

variable {r r' : Registry} {enums : List String}

def HoldsEnums (enums : List String) (r : Registry) : Prop :=
  ∀ name ∈ enums, r.classify (.named name) = .ok .symbol

theorem HoldsEnums.extends (h : r.HoldsEnums enums) (he : r.Extends r') : r'.HoldsEnums enums :=
  fun name hname => he.classify_eq (h name hname)

/-- A resolved type is of the class of the values it is for. -/
theorem resolve_valueClass (hi : r.Identifies) (hn : r.HoldsEnums enums) {semantic : SemanticType}
    (hentry : ∀ name ∈ semantic.entry?, name ∈ enums) {type : ColumnType}
    (h : r.resolve semantic = .ok (type, r')) : r'.classify type = .ok semantic.valueClass := by
  cases semantic with
  | node kind => exact (identifierType_identifies hi h).2
  | nodeUnion kinds =>
    rcases commonIdentifierType_eq_ok h with ⟨kind, hkind⟩ | ⟨rfl, rfl⟩
    · exact (identifierType_identifies hi hkind).2
    · exact classify_id r'
  | enumeration name | record name | union name =>
    obtain ⟨rfl, rfl⟩ := resolve_entry rfl h
    exact hn name (hentry name rfl)
  | number | text | bool | anyNode | nodeOrKeyword _ =>
    cases h
    rfl

end Registry

namespace FieldProjection

variable {r r' : Registry} {enums : List String}

/-- The type of a field's values is of the class of their meaning. That of a record list is the type
of lists of such values. -/
structure Fits (r : Registry) (p : FieldProjection) : Prop where
  value : p.shape ≠ .recordList → r.classify p.valueType = .ok p.semantic.valueClass
  list : p.shape = .recordList →
    ∃ element, r.IsListOf p.valueType element ∧ r.classify element = .ok p.semantic.valueClass

theorem Fits.extends {p : FieldProjection} (h : p.Fits r) (he : r.Extends r') : p.Fits r' where
  value hs := he.classify_eq (h.value hs)
  list hs := by
    obtain ⟨element, hl, hc⟩ := h.list hs
    exact ⟨element, he.isListOf hl, he.classify_eq hc⟩

theorem derive_fits (hi : r.Identifies) (hn : r.HoldsEnums enums) {kind : String} {field : Field}
    (hentry : ∀ name ∈ field.type.entry?, name ∈ enums) {p : FieldProjection}
    (h : derive r kind field = .ok (p, r')) : p.Fits r' := by
  obtain ⟨element, r₁, valueType, hresolve, rfl, hshape⟩ := derive_eq_ok h
  have hc := Registry.resolve_valueClass hi hn hentry hresolve
  rcases hshape with ⟨hshape, hlist⟩ | ⟨hshape, rfl, rfl⟩
  · exact ⟨fun hne => absurd hshape hne, fun _ => ⟨element, Registry.listType_isListOf hlist,
      (Registry.listType_extends hlist).classify_eq hc⟩⟩
  · exact ⟨fun _ => hc, fun heq => absurd heq hshape⟩

theorem deriveAll_fits (hi : r.Identifies) (hn : r.HoldsEnums enums) {kind : String}
    {fields : List Field} (hentry : ∀ field ∈ fields, ∀ name ∈ field.type.entry?, name ∈ enums)
    {ps : List FieldProjection} (h : deriveAll kind r fields = .ok (ps, r')) :
    ∀ p ∈ ps, p.Fits r' := by
  induction fields generalizing r ps with
  | nil =>
    cases h
    simp
  | cons field fields ih =>
    unfold deriveAll at h
    obtain ⟨⟨p, r₁⟩, hp, h⟩ := bind_eq_ok.mp h
    obtain ⟨⟨rest, r₂⟩, hrest, h⟩ := bind_eq_ok.mp h
    cases h
    intro q hq
    rcases List.mem_cons.mp hq with rfl | hq
    · have hfits := derive_fits hi hn (hentry field List.mem_cons_self) hp
      exact hfits.extends (deriveAll_grows hrest).extends
    · have hgrows := derive_grows hp
      exact ih (hgrows.identifies hi) (hn.extends hgrows.extends)
        (fun f hf => hentry f (List.mem_cons_of_mem _ hf)) hrest q hq

end FieldProjection

namespace KindSchema

variable {r r' : Registry} {enums : List String} {skip : SkipSet}

/-- A kind's nodes are identified, and the columns of its fields fit their values. -/
structure Fits (r : Registry) (k : KindSchema) : Prop where
  id : r.classify k.idType = .ok .nodeId
  fields : ∀ p ∈ k.fields, p.Fits r

theorem Fits.extends {k : KindSchema} (h : k.Fits r) (he : r.Extends r') : k.Fits r' where
  id := he.classify_eq h.id
  fields p hp := (h.fields p hp).extends he

theorem derive_fits (hi : r.Identifies) (hn : r.HoldsEnums enums) {kind : NodeKind}
    (hentry : ∀ field ∈ kind.fields, ∀ name ∈ field.type.entry?, name ∈ enums) {k : KindSchema}
    (h : derive skip r kind = .ok (k, r')) : k.Fits r' := by
  obtain ⟨idType, r₁, ps, hid, hps, rfl⟩ := derive_eq_ok h
  obtain ⟨hi₁, hc⟩ := Registry.identifierType_identifies hi hid
  have hkept : ∀ field ∈ (if kind.isAbstract then [] else
      kind.fields.filter fun field => !skip.contains kind.name field.name),
      ∀ name ∈ field.type.entry?, name ∈ enums := by
    intro field hfield
    split at hfield
    next => simp at hfield
    next => exact hentry field ((List.mem_filter.mp hfield).1)
  have hfits := FieldProjection.deriveAll_fits hi₁
    (hn.extends (Registry.identifierType_extends hid)) hkept hps
  exact ⟨(FieldProjection.deriveAll_grows hps).extends.classify_eq hc, hfits⟩

theorem deriveAll_fits (hi : r.Identifies) (hn : r.HoldsEnums enums) {kinds : List NodeKind}
    (hentry : ∀ kind ∈ kinds, ∀ field ∈ kind.fields, ∀ name ∈ field.type.entry?, name ∈ enums)
    {ks : List KindSchema} (h : deriveAll skip r kinds = .ok (ks, r')) : ∀ k ∈ ks, k.Fits r' := by
  induction kinds generalizing r ks with
  | nil =>
    cases h
    simp
  | cons kind kinds ih =>
    unfold deriveAll at h
    obtain ⟨⟨k, r₁⟩, hk, h⟩ := bind_eq_ok.mp h
    obtain ⟨⟨rest, r₂⟩, hrest, h⟩ := bind_eq_ok.mp h
    cases h
    intro q hq
    rcases List.mem_cons.mp hq with rfl | hq
    · have hfits := derive_fits hi hn (hentry kind List.mem_cons_self) hk
      exact hfits.extends (deriveAll_grows hrest).1.extends
    · obtain ⟨r₃, hid, hfields⟩ := derive_grows hk
      have hgrows : r.Grows r₁ := .head (.identifier hid) hfields
      exact ih (hgrows.identifies hi) (hn.extends hgrows.extends)
        (fun other hother => hentry other (List.mem_cons_of_mem _ hother)) hrest q hq

end KindSchema

end TreeFacts
