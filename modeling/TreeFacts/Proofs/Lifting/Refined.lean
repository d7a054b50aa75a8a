import TreeFacts.Proofs.Fact.Accepted
import TreeFacts.Proofs.Lifting.Parts
import TreeFacts.Proofs.Types.Subtyping

namespace TreeFacts

namespace Registry

variable {r : Registry} {type base : ColumnType}

/-- A subtype, in one step or more, of the type of a record or a union. -/
structure Refines (r : Registry) (type base : ColumnType) : Prop where
  chain : Relation.TransGen r.Link type base
  structured : r.endClass? base = some .record ∨ r.endClass? base = some .union

theorem Refines.classify_eq (h : r.Refines type base) : r.classify type = r.classify base := by
  rcases h.structured with hc | hc
  · rw [classify_of_leads h.chain.to_reflTransGen hc, classify_of_leads .refl hc]
  · rw [classify_of_leads h.chain.to_reflTransGen hc, classify_of_leads .refl hc]

theorem Refines.classify_cases (h : r.Refines type base) :
    r.classify type = .ok .record ∨ r.classify type = .ok .union :=
  h.structured.imp (classify_of_leads h.chain.to_reflTransGen)
    (classify_of_leads h.chain.to_reflTransGen)

theorem Refines.not_structured (h : r.Refines type base) :
    r.record? type.name = none ∧ r.union? type.name = none := by
  obtain ⟨next, hnext, -⟩ := Relation.TransGen.head'_iff.mp h.chain
  exact hnext.not_structured

theorem Refines.not_hasType (h : r.Refines type base) (v : FactValue) : ¬HasType r v type := by
  obtain ⟨hrecord, hunion⟩ := h.not_structured
  intro ht
  cases v with
  | number n =>
    simp only [HasType] at ht
    obtain ⟨c, hc, hatom⟩ := ht
    rcases h.classify_cases with hclass | hclass
    · cases hclass.symm.trans hc
      simp at hatom
    · cases hclass.symm.trans hc
      simp at hatom
  | symbol s =>
    simp only [HasType] at ht
    rcases h.classify_cases with hclass | hclass
    · cases hclass.symm.trans ht
    · cases hclass.symm.trans ht
  | nil => simp [HasType, hrecord] at ht
  | record vs => simp [HasType, hrecord] at ht
  | branch tag args => simp [HasType, hunion] at ht

end Registry

open Registry FactValue

variable {r : Registry} {type base own : ColumnType} {v w : FactValue}

theorem HaveTypes.of_mem_zip {vs : List FactValue} {fields : FieldTypes} (h : HaveTypes r vs fields)
    {p : FactValue × ColumnType} (hp : p ∈ vs.zip (fields.map (·.2))) : HasType r p.1 p.2 := by
  induction vs generalizing fields with
  | nil => cases hp
  | cons v vs ih =>
    cases fields with
    | nil => cases hp
    | cons field fields =>
      simp only [HaveTypes] at h
      rcases List.mem_cons.mp hp with rfl | hp
      · exact h.1
      · exact ih h.2 hp

/-- What stands in a value of a type is of the declared types. -/
theorem HasType.component (h : HasType r v type) (hw : Component r r.fieldTypes w own v type) :
    HasType r w own := by
  induction hw with
  | self => exact h
  | record hp _ ih =>
    simp only [HasType] at h
    obtain ⟨-, fields, hf, hvs⟩ := h
    rw [fieldTypes_eq hf] at hp
    exact ih (hvs.of_mem_zip hp)
  | branch hp _ ih =>
    simp only [HasType] at h
    obtain ⟨-, branches, b, hb, hfind, hargs⟩ := h
    rw [branchTypes_eq hb hfind] at hp
    exact ih (hargs.of_mem_zip hp)

/-- No text is accepted at a subtype of a record or a union: its fields or branches are looked up
under its own name. -/
theorem FactValue.parse_of_refines (h : r.Refines type base) (text : String) :
    parse r type text = .error (.unknownType type.name) := by
  obtain ⟨hrecord, hunion⟩ := h.not_structured
  unfold parse
  rcases h.classify_cases with hc | hc
  · rw [hc, ok_bind]
    simp only [readValue, readClassified, hc, ok_bind, hrecord, error_bind]
  · rw [hc, ok_bind]
    simp only [readValue, readClassified, hc, ok_bind, hunion, error_bind]

namespace Lifter

variable {l : Lifter} {x : Lifted}

theorem lift_of_refines (h : l.registry.Refines type base) : l.lift v type ≠ .ok x := by
  obtain ⟨hrecord, hunion⟩ := h.not_structured
  intro hx
  have hclass := h.classify_cases
  cases liftsAs_of_lift hx with
  | number _ hc | symbol _ hc | bool _ hc => simp [hc] at hclass
  | absent hc => simp [hc] at hclass
  | node hc _ => simp [hc] at hclass
  | emptyList _ hf _ | missing _ hf _ | list _ hf _ _ | record _ hf _ _ _ =>
    rw [hrecord] at hf
    cases hf
  | variant _ hb _ _ _ =>
    rw [hunion] at hb
    cases hb

theorem lift_of_liftFields {vs : List FactValue} {fields : FieldTypes} {xs : List (String × Lifted)}
    (h : l.liftFields fields vs = .ok xs) {p : FactValue × ColumnType}
    (hp : p ∈ vs.zip (fields.map (·.2))) : ∃ y, l.lift p.1 p.2 = .ok y := by
  induction vs generalizing fields xs with
  | nil => cases hp
  | cons v vs ih =>
    cases fields with
    | nil => cases hp
    | cons field fields =>
      obtain ⟨y, more, hy, hmore, -⟩ := liftFields_cons_eq_ok h
      rcases List.mem_cons.mp hp with rfl | hp
      · exact ⟨y, hy⟩
      · exact ih hmore hp

/-- The rest of a list is lifted to the list of the elements behind the first. -/
theorem lift_rest {fields : FieldTypes} (hc : l.registry.classify type = .ok .record)
    (hf : l.registry.record? type.name = some fields)
    (hcons : l.registry.isConsList type.name = true) {rest : FactValue} {more : List Lifted}
    (hmore : (rest = .nil ∧ more = []) ∨ ∃ next, rest = .record next ∧
      l.liftCell type.name ((l.registry.fieldTypes type).headD type) next = .ok more) :
    l.lift rest type = .ok (.list more) := by
  rcases hmore with ⟨rfl, rfl⟩ | ⟨next, rfl, hnext⟩
  · simp only [lift, hc, ok_bind, liftAtom, hf, hcons, if_true]
  · rw [fieldTypes_eq hf, List.headD_eq_head?_getD, List.head?_map] at hnext
    simp only [lift, hc, ok_bind, hf, hcons, if_true, hnext, map_ok]

/-- What stands in a value that is lifted is lifted itself. -/
theorem lift_component (hx : l.lift v type = .ok x)
    (hw : Component l.registry l.registry.liftedTypes w own v type) :
    ∃ y, l.lift w own = .ok y := by
  induction hw generalizing x with
  | self => exact ⟨x, hx⟩
  | @record vs type v t hp _ ih =>
    obtain ⟨y, hy⟩ : ∃ y, l.lift v t = .ok y := by
      cases liftsAs_of_lift hx with
      | list hc hf hcons hitems =>
        obtain ⟨head, rest, item, more, rfl, hitem, -, hmore⟩ := liftCell_eq_ok hitems
        rw [liftedTypes, if_pos hcons] at hp
        rcases List.mem_cons.mp hp with heq | hp
        · cases heq
          exact ⟨item, hitem⟩
        · cases List.mem_singleton.mp hp
          exact ⟨.list more, lift_rest hc hf hcons hmore⟩
      | record _ hf hcons _ hxs =>
        rw [liftedTypes, hcons, if_neg Bool.false_ne_true, fieldTypes_eq hf] at hp
        exact lift_of_liftFields hxs hp
    exact ih hy
  | @branch tag args type v t hp _ ih =>
    obtain ⟨y, hy⟩ : ∃ y, l.lift v t = .ok y := by
      cases liftsAs_of_lift hx with
      | variant _ hb hfind _ hxs =>
        rw [branchTypes_eq hb hfind] at hp
        exact lift_of_liftFields hxs hp
    exact ih hy

/-- Two results that are the same wherever one of them is no error. -/
def Alike {α : Type} (a b : Except Error α) : Prop := ∀ x, a = .ok x ↔ b = .ok x

theorem alike_iff_of_fails {α : Type} {a b : Except Error α} (h : ∀ x, a ≠ .ok x) :
    Alike a b ↔ ∀ x, b ≠ .ok x :=
  forall_congr' fun x => ⟨fun hab hb => h x (hab.mpr hb), fun hb => iff_of_false (h x) hb⟩

/-- A subtype of a record or a union has the class of the type that it refines, but is not read like
it: a text or a value has the same outcome at both just where it is refused at both. Nothing that is
accepted or lifted, at whatever type, has a part that is read at such a subtype. -/
theorem alike_refined_iff (h : r.Refines type base) :
    r.classify type = r.classify base ∧
      (∀ text, Alike (parse r type text) (parse r base text) ↔ ∀ v, parse r base text ≠ .ok v) ∧
      (∀ nodes v, Alike (lift ⟨r, nodes⟩ v type) (lift ⟨r, nodes⟩ v base) ↔
        ∀ x, lift ⟨r, nodes⟩ v base ≠ .ok x) ∧
      (∀ text, parse r type text = .error (.unknownType type.name)) ∧
      (∀ outer text v w, parse r outer text = .ok v → ¬Component r r.fieldTypes w type v outer) ∧
      ∀ nodes outer v x w, lift ⟨r, nodes⟩ v outer = .ok x →
        ¬Component r r.liftedTypes w type v outer := by
  have hparse (text : String) := parse_of_refines h text
  refine ⟨h.classify_eq, fun text => alike_iff_of_fails fun v hv => ?_,
    fun nodes v => alike_iff_of_fails fun x => lift_of_refines h, hparse, ?_, ?_⟩
  · rw [hparse text] at hv
    cases hv
  · intro outer text v w hv hw
    exact h.not_hasType w ((hasType_of_parse hv).component hw)
  · intro nodes outer v x w hx hw
    obtain ⟨y, hy⟩ := lift_component hx hw
    exact lift_of_refines h hy

/-- Pairs of numbers, under a name of their own and under a further one. -/
def rangeDefs : List TypeDef :=
  [.record "Pair" [("low", .number), ("high", .number)], .subtype "Range" (.named "Pair"),
    .subtype "Scope" (.named "Range")]

def rangeRegistry : Registry := ⟨Registry.empty.defs ++ rangeDefs, none⟩

theorem scope_refines : rangeRegistry.Refines (.named "Scope") (.named "Pair") where
  chain := .tail (.single (b := .named "Range") ⟨by decide, "Scope", by decide⟩)
    ⟨by decide, "Range", by decide⟩
  structured := .inl (by decide)

theorem alike_refined_scope :
    rangeRegistry.Refines (.named "Scope") (.named "Pair") ∧
      Alike (parse rangeRegistry (.named "Scope") "[1]")
        (parse rangeRegistry (.named "Pair") "[1]") := by
  refine ⟨scope_refines, ((alike_refined_iff scope_refines).2.1 "[1]").mpr ?_⟩
  intro v hv
  have hfails : (parse rangeRegistry (.named "Pair") "[1]").isOk = false := by decide +kernel
  rw [hv] at hfails
  cases hfails

/-- A pair of numbers is read and lifted as a pair, and not as what refines it. -/
theorem refined_not_alike :
    Registry.empty.defineAll rangeDefs = .ok rangeRegistry ∧
      rangeRegistry.Refines (.named "Scope") (.named "Pair") ∧
      parse rangeRegistry (.named "Pair") "[1, 2]" = .ok (.record [.number 1, .number 2]) ∧
      parse rangeRegistry (.named "Scope") "[1, 2]" = .error (.unknownType "Scope") ∧
      lift ⟨rangeRegistry, ⟨[]⟩⟩ (.record [.number 1, .number 2]) (.named "Pair") =
        .ok (.record [("low", .number 1), ("high", .number 2)]) ∧
      lift ⟨rangeRegistry, ⟨[]⟩⟩ (.record [.number 1, .number 2]) (.named "Scope") =
        .error (.unknownType "Scope") :=
  ⟨by decide, scope_refines, by decide +kernel, by decide +kernel, rfl, rfl⟩

end Lifter

end TreeFacts
