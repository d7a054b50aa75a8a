import Mathlib.Data.List.Perm.Subperm
import Mathlib.Logic.Relation
import TreeFacts.Proofs.Types.Registry

namespace TreeFacts

namespace Registry

variable {r : Registry} {type base next last other : ColumnType} {c : TypeClass} {fuel : Nat}

/-- The class of a type that is not a subtype of another: a primitive or builtin one, a record or a
union. -/
def endClass? (r : Registry) : ColumnType → Option TypeClass
  | .number => some .number
  | .symbol => some .symbol
  | .named name =>
    if name = "bool" then some .bool
    else if name = "id" then some .nodeId
    else match r.get? name with
      | some (.record _ _) => some .record
      | some (.union _ _) => some .union
      | _ => none

/-- The first type is defined as a subtype of the second. The builtin types have a class of their own
and count as no subtypes. -/
def Link (r : Registry) (type base : ColumnType) : Prop :=
  r.endClass? type = none ∧ ∃ name, r.get? type.name = some (.subtype name base)

/-- A name without a definition. -/
def Undefined (r : Registry) (type : ColumnType) : Prop :=
  r.endClass? type = none ∧ r.get? type.name = none

/-- Following the bases of subtypes, in finitely many steps, leads from one type to the other. -/
abbrev Leads (r : Registry) : ColumnType → ColumnType → Prop := Relation.ReflTransGen r.Link

theorem Link.unique (h : r.Link type base) (h' : r.Link type next) : base = next := by
  obtain ⟨-, name, hget⟩ := h
  obtain ⟨-, name', hget'⟩ := h'
  rw [hget] at hget'
  cases hget'
  rfl

/-- The name of a subtype is that of neither a record nor a union. -/
theorem Link.not_structured (h : r.Link type base) :
    r.record? type.name = none ∧ r.union? type.name = none := by
  obtain ⟨-, name, hget⟩ := h
  rw [record?, union?, hget]
  exact ⟨rfl, rfl⟩

theorem not_link_of_end (h : r.endClass? type = some c) : ¬r.Link type base := by
  rintro ⟨hnone, -⟩
  rw [h] at hnone
  cases hnone

theorem Undefined.not_link (h : r.Undefined type) : ¬r.Link type base := by
  rintro ⟨-, name, hget⟩
  rw [h.2] at hget
  cases hget

theorem end_or_link_or_undefined (r : Registry) (type : ColumnType) :
    (∃ c, r.endClass? type = some c) ∨ (∃ base, r.Link type base) ∨ r.Undefined type := by
  cases hend : r.endClass? type with
  | some c => exact Or.inl ⟨c, rfl⟩
  | none =>
    refine Or.inr ?_
    cases hget : r.get? type.name with
    | none => exact Or.inr ⟨hend, hget⟩
    | some d =>
      cases type with
      | number => cases hend
      | symbol => cases hend
      | named name =>
        cases d with
        | subtype name' base => exact Or.inl ⟨base, hend, name', hget⟩
        | record name' fields =>
          rw [ColumnType.name] at hget
          simp only [endClass?, hget] at hend
          split_ifs at hend
        | union name' branches =>
          rw [ColumnType.name] at hget
          simp only [endClass?, hget] at hend
          split_ifs at hend

/-- One step of the search: a type that ends the chain is classified, a subtype by its base. -/
theorem classifyIn_succ (r : Registry) (fuel : Nat) (type : ColumnType) :
    r.classifyIn (fuel + 1) type =
      match r.endClass? type with
      | some c => .ok (some c)
      | none =>
        match r.get? type.name with
        | some (.subtype _ base) => r.classifyIn fuel base
        | _ => .error (.unknownType type.name) := by
  cases type with
  | number => rfl
  | symbol => rfl
  | named name =>
    rw [classifyIn]
    simp only [endClass?, ColumnType.name]
    split_ifs with hbool hid
    · rfl
    · rfl
    · cases hget : r.get? name with
      | none => rfl
      | some d => cases d <;> rfl

theorem classifyIn_of_end (h : r.endClass? type = some c) :
    r.classifyIn (fuel + 1) type = .ok (some c) := by
  rw [classifyIn_succ, h]

theorem Link.classifyIn (h : r.Link type base) :
    r.classifyIn (fuel + 1) type = r.classifyIn fuel base := by
  obtain ⟨hend, name, hget⟩ := h
  rw [classifyIn_succ, hend, hget]

theorem Undefined.classifyIn (h : r.Undefined type) :
    r.classifyIn (fuel + 1) type = .error (.unknownType type.name) := by
  rw [classifyIn_succ, h.1, h.2]

/-- Within the steps allowed, the search comes to where the chain ends, or they are used up. -/
theorem classifyIn_cases (r : Registry) (fuel : Nat) (type : ColumnType) :
    (∃ last c, r.Leads type last ∧ r.endClass? last = some c ∧
        r.classifyIn fuel type = .ok (some c)) ∨
      (∃ last, r.Leads type last ∧ r.Undefined last ∧
        r.classifyIn fuel type = .error (.unknownType last.name)) ∨
      r.classifyIn fuel type = .ok none := by
  induction fuel generalizing type with
  | zero => exact Or.inr (Or.inr rfl)
  | succ fuel ih =>
    rcases r.end_or_link_or_undefined type with ⟨c, hc⟩ | ⟨base, hbase⟩ | hundefined
    · exact Or.inl ⟨type, c, .refl, hc, classifyIn_of_end hc⟩
    · rw [hbase.classifyIn]
      rcases ih base with ⟨last, c, hlast, hc, hok⟩ | ⟨last, hlast, hundefined, herror⟩ | hnone
      · exact Or.inl ⟨last, c, .head hbase hlast, hc, hok⟩
      · exact Or.inr (Or.inl ⟨last, .head hbase hlast, hundefined, herror⟩)
      · exact Or.inr (Or.inr hnone)
    · exact Or.inr (Or.inl ⟨type, .refl, hundefined, hundefined.classifyIn⟩)

theorem Link.exists_name (h : r.Link type base) :
    ∃ name ∈ r.defs.map (·.name), type = .named name := by
  obtain ⟨hend, name, hget⟩ := h
  cases type with
  | number => cases hend
  | symbol => cases hend
  | named name' =>
    have hname := List.find?_some hget
    exact ⟨name', List.mem_map.mpr ⟨_, List.mem_of_find?_eq_some hget, eq_of_beq hname⟩, rfl⟩

/-- Where the steps are used up after one for each definition, some name has come up twice. The names
that have come up lead to the present one. -/
theorem exists_circle {seen : List String} (hnone : r.classifyIn fuel type = .ok none)
    (hn : seen.Nodup) (hsub : seen ⊆ r.defs.map (·.name))
    (hpath : ∀ name ∈ seen, Relation.TransGen r.Link (.named name) type)
    (hlen : seen.length + fuel = r.defs.length + 1) :
    ∃ again, r.Leads type again ∧ Relation.TransGen r.Link again again := by
  induction fuel generalizing type seen with
  | zero =>
    have hle := (List.subperm_of_subset hn hsub).length_le
    rw [List.length_map] at hle
    omega
  | succ fuel ih =>
    rcases r.end_or_link_or_undefined type with ⟨c, hc⟩ | ⟨base, hbase⟩ | hundefined
    · rw [classifyIn_of_end hc] at hnone
      cases hnone
    · obtain ⟨name, hname, rfl⟩ := hbase.exists_name
      by_cases hseen : name ∈ seen
      · exact ⟨.named name, .refl, hpath name hseen⟩
      · rw [hbase.classifyIn] at hnone
        have hsub' : name :: seen ⊆ r.defs.map (·.name) := List.cons_subset.mpr ⟨hname, hsub⟩
        have hpath' : ∀ k ∈ name :: seen, Relation.TransGen r.Link (.named k) base := by
          intro k hk
          rcases List.mem_cons.mp hk with rfl | hk
          · exact .single hbase
          · exact (hpath k hk).tail hbase
        obtain ⟨again, hagain, hcircle⟩ := ih hnone (List.nodup_cons.mpr ⟨hseen, hn⟩) hsub' hpath'
          (by rw [List.length_cons]; omega)
        exact ⟨again, .head hbase hagain, hcircle⟩
    · rw [hundefined.classifyIn] at hnone
      cases hnone

/-- What a type on a circle leads to is on the circle. -/
theorem circle_of_leads (hcircle : Relation.TransGen r.Link type type) (h : r.Leads type last) :
    Relation.TransGen r.Link last last := by
  induction h with
  | refl => exact hcircle
  | tail _ hlink ih =>
    obtain ⟨next, hnext, hback⟩ := Relation.TransGen.head'_iff.mp ih
    rw [hnext.unique hlink] at hback
    exact .tail' hback hlink

theorem leads_total (h : r.Leads type last) (h' : r.Leads type other) :
    r.Leads last other ∨ r.Leads other last :=
  Relation.ReflTransGen.total_of_right_unique (fun _ _ _ => Link.unique) h h'

/-- A chain that runs into a circle has no end. -/
theorem exists_link_of_circle {again : ColumnType} (hagain : r.Leads type again)
    (hcircle : Relation.TransGen r.Link again again) (h : r.Leads type last) :
    ∃ next, r.Link last next := by
  rcases leads_total hagain h with hon | hbefore
  · obtain ⟨next, hnext, -⟩ := Relation.TransGen.head'_iff.mp (circle_of_leads hcircle hon)
    exact ⟨next, hnext⟩
  · rcases hbefore.cases_head with rfl | ⟨next, hnext, -⟩
    · obtain ⟨next, hnext, -⟩ := Relation.TransGen.head'_iff.mp hcircle
      exact ⟨next, hnext⟩
    · exact ⟨next, hnext⟩

/-- The end of a chain is determined by where it begins. -/
theorem eq_of_leads (h : r.Leads type last) (hlast : ∀ next, ¬r.Link last next)
    (h' : r.Leads type other) (hother : ∀ next, ¬r.Link other next) : last = other := by
  rcases leads_total h h' with hbehind | hbefore
  · rcases hbehind.cases_head with heq | ⟨next, hnext, -⟩
    · exact heq
    · exact absurd hnext (hlast next)
  · rcases hbefore.cases_head with heq | ⟨next, hnext, -⟩
    · exact heq.symm
    · exact absurd hnext (hother next)

/-- Every chain ends in a class or in an undefined name, or has no end. -/
theorem classify_cases (r : Registry) (type : ColumnType) :
    (∃ last c, r.Leads type last ∧ r.endClass? last = some c ∧ r.classify type = .ok c) ∨
      (∃ last, r.Leads type last ∧ r.Undefined last ∧
        r.classify type = .error (.unknownType last.name)) ∨
      ((∀ last, r.Leads type last → ∃ next, r.Link last next) ∧
        r.classify type = .error (.unknownType type.name)) := by
  unfold classify
  rcases r.classifyIn_cases (r.defs.length + 1) type with
    ⟨last, c, hlast, hc, hok⟩ | ⟨last, hlast, hundefined, herror⟩ | hnone
  · exact Or.inl ⟨last, c, hlast, hc, by rw [hok]; rfl⟩
  · exact Or.inr (Or.inl ⟨last, hlast, hundefined, by rw [herror]; rfl⟩)
  · have hstart : ∀ name ∈ ([] : List String), Relation.TransGen r.Link (.named name) type :=
      fun _ h => absurd h List.not_mem_nil
    obtain ⟨again, hagain, hcircle⟩ :=
      exists_circle hnone List.nodup_nil (List.nil_subset _) hstart (Nat.zero_add _)
    refine Or.inr (Or.inr ⟨fun last hlast => ?_, by rw [hnone]; rfl⟩)
    exact exists_link_of_circle hagain hcircle hlast

theorem classify_of_leads (h : r.Leads type last) (hc : r.endClass? last = some c) :
    r.classify type = .ok c := by
  rcases r.classify_cases type with
    ⟨last', c', hlast', hc', hok⟩ | ⟨last', hlast', hundefined, -⟩ | ⟨hendless, -⟩
  · have heq := eq_of_leads h (fun _ => not_link_of_end hc) hlast' (fun _ => not_link_of_end hc')
    rw [← heq, hc] at hc'
    cases hc'
    exact hok
  · have heq := eq_of_leads h (fun _ => not_link_of_end hc) hlast' (fun _ => hundefined.not_link)
    rw [← heq, Undefined, hc] at hundefined
    cases hundefined.1
  · obtain ⟨next, hnext⟩ := hendless last h
    exact absurd hnext (not_link_of_end hc)

theorem classify_of_undefined (h : r.Leads type last) (hlast : r.Undefined last) :
    r.classify type = .error (.unknownType last.name) := by
  rcases r.classify_cases type with
    ⟨last', c, hlast', hc, -⟩ | ⟨last', hlast', hundefined, herror⟩ | ⟨hendless, -⟩
  · have heq := eq_of_leads h (fun _ => hlast.not_link) hlast' (fun _ => not_link_of_end hc)
    rw [← heq, hlast.1] at hc
    cases hc
  · rw [eq_of_leads h (fun _ => hlast.not_link) hlast' (fun _ => hundefined.not_link)]
    exact herror
  · obtain ⟨next, hnext⟩ := hendless last h
    exact absurd hnext hlast.not_link

theorem classify_of_endless (h : ∀ last, r.Leads type last → ∃ next, r.Link last next) :
    r.classify type = .error (.unknownType type.name) := by
  rcases r.classify_cases type with
    ⟨last, c, hlast, hc, -⟩ | ⟨last, hlast, hundefined, -⟩ | ⟨-, herror⟩
  · obtain ⟨next, hnext⟩ := h last hlast
    exact absurd hnext (not_link_of_end hc)
  · obtain ⟨next, hnext⟩ := h last hlast
    exact absurd hnext hundefined.not_link
  · exact herror

/-- A type has the class in which its chain of subtypes ends, however long the chain is. It is unknown
just when the chain comes to a name without a definition or has no end. -/
theorem classify_chain (r : Registry) (type : ColumnType) :
    (∀ c, r.classify type = .ok c ↔ ∃ last, r.Leads type last ∧ r.endClass? last = some c) ∧
      ∀ e, r.classify type = .error e ↔
        (∃ last, r.Leads type last ∧ r.Undefined last ∧ e = .unknownType last.name) ∨
          ((∀ last, r.Leads type last → ∃ next, r.Link last next) ∧ e = .unknownType type.name) := by
  have hcases := r.classify_cases type
  constructor
  · intro c
    constructor
    · intro hc
      rcases hcases with ⟨last, c', hlast, hc', hok⟩ | ⟨_, -, -, herror⟩ | ⟨-, herror⟩
      · cases hok.symm.trans hc
        exact ⟨last, hlast, hc'⟩
      · cases herror.symm.trans hc
      · cases herror.symm.trans hc
    · rintro ⟨last, hlast, hc⟩
      exact classify_of_leads hlast hc
  · intro e
    constructor
    · intro he
      rcases hcases with ⟨_, _, -, -, hok⟩ | ⟨last, hlast, hundefined, herror⟩ | ⟨hendless, herror⟩
      · cases hok.symm.trans he
      · cases herror.symm.trans he
        exact Or.inl ⟨last, hlast, hundefined, rfl⟩
      · cases herror.symm.trans he
        exact Or.inr ⟨hendless, rfl⟩
    · rintro (⟨last, hlast, hundefined, rfl⟩ | ⟨hendless, rfl⟩)
      · exact classify_of_undefined hlast hundefined
      · exact classify_of_endless hendless

/-- Two subtypes of each other, which may be defined, have no class. -/
example : (Registry.empty.defineAll [.subtype "Hen" (.named "Egg"), .subtype "Egg" (.named "Hen")]).bind
    (fun r => r.classify (.named "Hen")) = .error (.unknownType "Hen") := by decide

end Registry

end TreeFacts
