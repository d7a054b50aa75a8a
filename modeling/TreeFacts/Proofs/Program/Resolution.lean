import TreeFacts.Proofs.Program.Expansion

namespace TreeFacts.Program

/-- The names of the components that a component inherits from and makes instances of. -/
def Component.references (c : Component) : List String :=
  c.bases.map (·.component) ++ c.statements.inits.map (·.component)

/-- Names that stand for the same components in two programs, as do the names in those. -/
structure Shared (components components' : List Component) (names : String → Prop) : Prop where
  lookup : ∀ {name}, names name → component? components name = component? components' name
  references : ∀ {name c}, names name → component? components name = some c →
    ∀ {reference}, reference ∈ c.references → names reference

/-- The components that are not open. -/
def unopened (components : List Component) (opened : List String) : List Component :=
  components.filter fun c => c.name ∉ opened

variable {components components' : List Component} {names : String → Prop} {c : Component}
  {fuel fuel' : Nat} {opened : List String} {args : List ColumnType} {name qualifier : String}
  {inherited inherited' : List Interface}

theorem unopened_nil (components : List Component) : unopened components [] = components := by
  simp [unopened]

theorem unopened_cons_lt (hc : component? components name = some c) (hopened : name ∉ opened) :
    (unopened components (name :: opened)).length < (unopened components opened).length := by
  obtain ⟨hmem, hname⟩ := component?_eq_some hc
  have hless : unopened components (name :: opened) =
      (unopened components opened).filter fun d => d.name ≠ name := by
    unfold unopened
    rw [List.filter_filter]
    refine List.filter_congr fun d _ => ?_
    simp [List.mem_cons, not_or]
  rw [hless, List.length_filter_lt_length_iff_exists]
  refine ⟨c, List.mem_filter.mpr ⟨hmem, ?_⟩, ?_⟩
  · rw [hname]
    exact decide_eq_true hopened
  · simpa using hname

theorem Component.base_mem_references {b : Base} (hb : b ∈ c.bases) :
    b.component ∈ c.references := List.mem_append_left _ (List.mem_map_of_mem hb)

theorem Component.init_mem_references {i : Init} (hi : i ∈ c.statements.inits) :
    i.component ∈ c.references := List.mem_append_right _ (List.mem_map_of_mem hi)

namespace Shared

theorem symm (h : Shared components components' names) :
    Shared components' components names where
  lookup hname := (h.lookup hname).symm
  references hname hc := h.references hname ((h.lookup hname).trans hc)

theorem defines (h : Shared components components' names)
    (hc : ∀ {reference}, reference ∈ c.references → names reference)
    (hdefines : Defines components c name) : Defines components' c name := by
  induction hdefines with
  | own hown => exact .own hown
  | inherited hb habove _ ih =>
    have hname := hc (Component.base_mem_references hb)
    exact .inherited hb ((h.lookup hname).symm.trans habove) (ih (h.references hname habove))

/-- Where a component's bases can be made in both programs, both give an instance the same types. -/
theorem instanceType_eq (h : Shared components components' names)
    (hc : ∀ {reference}, reference ∈ c.references → names reference)
    (hinherited : inherit components fuel opened c args qualifier = .ok inherited)
    (hfuel : fuel ≤ components.length)
    (hinherited' : inherit components' fuel' opened c args qualifier = .ok inherited')
    (hfuel' : fuel' ≤ components'.length) :
    instanceType components c args qualifier = instanceType components' c args qualifier := by
  have hlocal (type : String) : (localTypes components components.length c).contains type =
      (localTypes components' components'.length c).contains type := by
    rw [Bool.eq_iff_iff, List.contains_iff_mem, List.contains_iff_mem,
      mem_localTypes_iff_of_inherit hinherited hfuel,
      mem_localTypes_iff_of_inherit hinherited' hfuel']
    exact ⟨h.defines hc, h.symm.defines hc⟩
  funext type
  simp only [instanceType, hlocal]

/-- A name that two programs share is expanded in the same way in both. -/
theorem instantiate_eq (h : Shared components components' names) (hname : names name)
    (hfuel : (unopened components opened).length < fuel) (hbound : fuel ≤ components.length + 1)
    (hfuel' : (unopened components' opened).length < fuel')
    (hbound' : fuel' ≤ components'.length + 1) :
    instantiate components fuel opened name args qualifier =
      instantiate components' fuel' opened name args qualifier := by
  induction fuel generalizing fuel' opened name args qualifier with
  | zero => omega
  | succ fuel ih =>
    obtain ⟨fuel', rfl⟩ : ∃ n, fuel' = n + 1 := ⟨fuel' - 1, by omega⟩
    by_cases hopened : name ∈ opened
    · rw [instantiate_opened hopened, instantiate_opened hopened]
    cases hc : component? components name with
    | none =>
      have hc' : component? components' name = none := (h.lookup hname).symm.trans hc
      rw [instantiate_unknown hopened hc, instantiate_unknown hopened hc']
    | some c =>
      have hc' : component? components' name = some c := (h.lookup hname).symm.trans hc
      have hreferences {reference : String} (hmem : reference ∈ c.references) : names reference :=
        h.references hname hc hmem
      have hopen := unopened_cons_lt hc hopened
      have hopen' := unopened_cons_lt hc' hopened
      by_cases hargs : c.params.length = args.length
      · have hinside {args : List ColumnType} {reference qualifier : String}
            (hmem : reference ∈ c.references) :
            instantiate components fuel (name :: opened) reference args qualifier =
              instantiate components' fuel' (name :: opened) reference args qualifier :=
          ih (hreferences hmem) (by omega) (by omega) (by omega) (by omega)
        have hinherit : inherit components fuel (name :: opened) c args qualifier =
            inherit components' fuel' (name :: opened) c args qualifier :=
          mapM_congr fun b hb => hinside (Component.base_mem_references hb)
        rw [instantiate_succ hopened hc hargs, instantiate_succ hopened hc' hargs]
        cases hinherited : inherit components fuel (name :: opened) c args qualifier with
        | error fault => rw [← hinherit, hinherited]; rfl
        | ok inherited =>
          have hinherited' := hinherit.symm.trans hinherited
          have htypes := h.instanceType_eq hreferences hinherited (by omega) hinherited' (by omega)
          have hmake : make components fuel (name :: opened) c args qualifier =
              make components' fuel' (name :: opened) c args qualifier := by
            unfold make
            rw [htypes]
            exact mapM_congr fun i hi => hinside (Component.init_mem_references hi)
          rw [hinherited', hmake, htypes]
      · rw [instantiate_arguments hopened hc hargs, instantiate_arguments hopened hc' hargs]

end Shared

end TreeFacts.Program
