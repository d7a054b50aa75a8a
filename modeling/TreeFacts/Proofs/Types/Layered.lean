import TreeFacts.Proofs.Schema.Below

namespace TreeFacts

/-- A primitive type, or one that some definition has the name of. -/
def ColumnType.DefinedIn (defs : List TypeDef) : ColumnType → Prop
  | named name => ∃ d ∈ defs, d.name = name
  | _ => True

@[simp] theorem ColumnType.definedIn_number (defs : List TypeDef) : number.DefinedIn defs := trivial

@[simp] theorem ColumnType.definedIn_symbol (defs : List TypeDef) : symbol.DefinedIn defs := trivial

theorem ColumnType.DefinedIn.mono {defs defs' : List TypeDef} (hsub : defs ⊆ defs')
    {type : ColumnType} (ht : type.DefinedIn defs) : type.DefinedIn defs' := by
  cases type with
  | number => trivial
  | symbol => trivial
  | named name =>
    obtain ⟨d, hd, hname⟩ := ht
    exact ⟨d, hsub hd, hname⟩

/-- The types that a definition uses are defined before it. Records and unions may also use their
own type. -/
def TypeDef.RestsOn (defs : List TypeDef) : TypeDef → Prop
  | subtype _ base => base.DefinedIn defs
  | record name fields => ∀ field ∈ fields, field.2.DefinedIn (defs ++ [record name fields])
  | union name branches => ∀ branch ∈ branches, ∀ field ∈ branch.fields,
    field.2.DefinedIn (defs ++ [union name branches])

namespace Registry

variable {r r' : Registry} {d : TypeDef}

/-- Definitions were made one after the other, under free names and with the types that there
were. -/
inductive Layered : Registry → Prop
  | empty : Layered .empty
  | push {r : Registry} {d : TypeDef} : Layered r → r.get? d.name = none → d.RestsOn r.defs →
    Layered (r.push d)
  | kinds {r : Registry} (h : Option Hierarchy) : Layered r → Layered { r with hierarchy := h }

namespace Layered

/-- Where a definition stands, the types that it uses stand before it. -/
theorem restsOn (hl : r.Layered) {before after : List TypeDef}
    (hdefs : r.defs = before ++ d :: after) : d.RestsOn before := by
  induction hl generalizing after with
  | empty =>
    have hd : d ∈ Registry.empty.defs := by
      rw [hdefs]
      exact List.mem_append_right _ List.mem_cons_self
    rcases List.mem_cons.mp hd with rfl | hd
    · trivial
    · rw [List.mem_singleton.mp hd]
      trivial
  | @push r last _ _ hlast ih =>
    rcases List.eq_nil_or_concat after with rfl | ⟨after, final, rfl⟩
    · obtain ⟨hbefore, hd⟩ := List.append_inj' hdefs rfl
      cases hd
      exact hbefore ▸ hlast
    · rw [List.concat_eq_append, ← List.cons_append, ← List.append_assoc] at hdefs
      exact ih (List.append_inj' hdefs rfl).1
  | kinds _ _ ih => exact ih hdefs

theorem empty_defs (hl : r.Layered) : Registry.empty.defs <+: r.defs := by
  induction hl with
  | empty => exact List.prefix_rfl
  | push _ _ _ ih => exact ih.trans (List.prefix_append _ _)
  | kinds _ _ ih => exact ih

theorem id_definedIn (hl : r.Layered) : ColumnType.id.DefinedIn r.defs :=
  ⟨.subtype "id" .number, hl.empty_defs.subset List.mem_cons_self, rfl⟩

theorem bool_definedIn (hl : r.Layered) : ColumnType.bool.DefinedIn r.defs :=
  ⟨.subtype "bool" .number,
    hl.empty_defs.subset (List.mem_cons_of_mem _ List.mem_cons_self), rfl⟩

end Layered

theorem definedIn_of_get? {name : String} (hsome : (r.get? name).isSome) :
    (ColumnType.named name).DefinedIn r.defs := by
  obtain ⟨d, hd⟩ := Option.isSome_iff_exists.mp hsome
  have hname : d.name = name := by simpa using List.find?_some hd
  exact ⟨d, List.mem_of_find?_eq_some hd, hname⟩

theorem Classifies.classify_definedIn (hr : r.Classifies) {type : ColumnType}
    (ht : type.DefinedIn r.defs) : ∃ c, r.classify type = .ok c := by
  cases type with
  | number => exact ⟨_, classify_number r⟩
  | symbol => exact ⟨_, classify_symbol r⟩
  | named name =>
    obtain ⟨d, hd, hname⟩ := ht
    exact hr name (List.find?_isSome.mpr ⟨d, hd, beq_iff_eq.mpr hname⟩)

theorem exists_class_push (hfree : r.get? d.name = none)
    (hbase : ∀ name base, d = .subtype name base → ∃ c, r.classify base = .ok c) :
    ∃ c, (r.push d).classify (.named d.name) = .ok c := by
  by_cases hbool : d.name = "bool"
  · rw [hbool]
    exact ⟨_, classify_bool _⟩
  by_cases hid : d.name = "id"
  · rw [hid]
    exact ⟨_, classify_id _⟩
  have hself := get?_push_self hfree
  cases d with
  | subtype name base =>
    obtain ⟨c, hc⟩ := hbase name base rfl
    exact ⟨c, classify_push_subtype hfree hbool hid hc⟩
  | record name fields =>
    refine ⟨.record, ?_⟩
    rw [classify_eq_ok, classifyIn, if_neg hbool, if_neg hid, hself]
  | union name branches =>
    refine ⟨.union, ?_⟩
    rw [classify_eq_ok, classifyIn, if_neg hbool, if_neg hid, hself]

namespace Layered

/-- Since what a type refines is defined before it, every chain of subtypes ends. -/
theorem classifies (hl : r.Layered) : r.Classifies := by
  induction hl with
  | empty =>
    intro name hsome
    obtain ⟨d, hd, rfl⟩ := definedIn_of_get? hsome
    rcases List.mem_cons.mp hd with rfl | hd
    · exact ⟨_, classify_id _⟩
    · rw [List.mem_singleton.mp hd]
      exact ⟨_, classify_bool _⟩
  | @push r d _ hfree hrests ih =>
    refine ih.of_extends (extends_push r d) fun name hsome hnone => ?_
    have hname : d.name = name := by
      by_contra hne
      rw [get?_push_of_ne hne, hnone] at hsome
      cases hsome
    subst hname
    refine exists_class_push hfree fun name base hd => ih.classify_definedIn ?_
    subst hd
    exact hrests
  | @kinds r h _ ih =>
    have hdefs : r.defs <+: ({ r with hierarchy := h } : Registry).defs := List.prefix_rfl
    intro name hsome
    obtain ⟨c, hc⟩ := ih name hsome
    exact ⟨c, classify_mono hdefs hc⟩

theorem classify_definedIn (hl : r.Layered) {type : ColumnType} (ht : type.DefinedIn r.defs) :
    ∃ c, r.classify type = .ok c :=
  hl.classifies.classify_definedIn ht

theorem define (hl : r.Layered) (hd : d.RestsOn r.defs) (h : r.define d = .ok r') : r'.Layered := by
  rcases define_eq_ok.mp h with ⟨-, rfl⟩ | ⟨hfree, rfl⟩
  · exact hl
  · exact hl.push hfree hd

theorem registerEnums (hl : r.Layered) {enums : List String}
    (h : enums.foldlM registerEnum r = .ok r') : r'.Layered := by
  induction enums generalizing r with
  | nil =>
    cases h
    exact hl
  | cons name enums ih =>
    rw [List.foldlM_cons] at h
    obtain ⟨r₁, hfirst, hrest⟩ := bind_eq_ok.mp h
    have hrests : (TypeDef.subtype name .symbol).RestsOn r.defs := trivial
    exact ih (hl.define hrests hfirst) hrest

theorem registerKinds (hl : r.Layered) {g : Grammar} (h : r.registerKinds g = .ok r') :
    r'.Layered := by
  rw [(registerKinds_eq_ok h).1]
  exact hl.kinds _

theorem internChain (hl : r.Layered) (chain : List String) :
    (r.internChain chain).2.Layered ∧
      (r.internChain chain).1.DefinedIn (r.internChain chain).2.defs := by
  induction chain with
  | nil => exact ⟨hl, hl.id_definedIn⟩
  | cons kind chain ih =>
    cases chain with
    | nil => exact ⟨hl, hl.id_definedIn⟩
    | cons above rest =>
      obtain ⟨hl', hbase⟩ := ih
      unfold Registry.internChain
      simp only
      split
      next hsome => exact ⟨hl', definedIn_of_get? hsome⟩
      next hnone =>
        refine ⟨hl'.push (Option.not_isSome_iff_eq_none.mp hnone) hbase, ?_⟩
        exact ⟨_, List.mem_append_right _ List.mem_cons_self, rfl⟩

theorem identifierType (hl : r.Layered) {kind : String} {type : ColumnType}
    (h : r.identifierType kind = .ok (type, r')) : r'.Layered ∧ type.DefinedIn r'.defs := by
  obtain ⟨_, chain, -, -, heq⟩ := identifierType_eq_ok h
  have hchain := hl.internChain chain
  rwa [heq] at hchain

theorem resolve (hl : r.Layered) {semantic : SemanticType} {type : ColumnType}
    (h : r.resolve semantic = .ok (type, r')) : r'.Layered ∧ type.DefinedIn r'.defs := by
  cases semantic with
  | number | text | nodeOrKeyword _ =>
    cases h
    exact ⟨hl, trivial⟩
  | bool =>
    cases h
    exact ⟨hl, hl.bool_definedIn⟩
  | anyNode =>
    cases h
    exact ⟨hl, hl.id_definedIn⟩
  | node kind => exact hl.identifierType h
  | nodeUnion kinds =>
    rcases commonIdentifierType_eq_ok h with ⟨kind, hkind⟩ | ⟨rfl, rfl⟩
    · exact hl.identifierType hkind
    · exact ⟨hl, hl.id_definedIn⟩
  | enumeration name | record name | union name =>
    have hfound : (if (r.get? name).isSome then Except.ok (ColumnType.named name, r)
        else .error (Error.unknownType name)) = .ok (type, r') := h
    split at hfound
    next hsome =>
      cases hfound
      exact ⟨hl, definedIn_of_get? hsome⟩
    next => cases hfound

theorem listType (hl : r.Layered) {element type : ColumnType} (he : element.DefinedIn r.defs)
    (h : r.listType element = .ok (type, r')) : r'.Layered ∧ type.DefinedIn r'.defs := by
  unfold Registry.listType at h
  obtain ⟨r₁, hdefine, heq⟩ := map_eq_ok.mp h
  cases heq
  have hself := get?_define_self hdefine
  refine ⟨hl.define ?_ hdefine, _, List.mem_of_find?_eq_some hself, rfl⟩
  intro field hfield
  rcases List.mem_cons.mp hfield with rfl | hfield
  · exact he.mono (List.subset_append_left _ _)
  · -- The rest of a list is of the list's own type.
    rw [List.mem_singleton.mp hfield]
    exact ⟨_, List.mem_append_right _ List.mem_cons_self, rfl⟩

end Layered

end Registry

end TreeFacts
