import Mathlib.Logic.Relation
import TreeFacts.Proofs.Program.Resolution

namespace TreeFacts.Program

/-- How a component is referred to, by a base or an instance: its name, and how many types are
given for its parameters. -/
structure Call where
  component : String
  arguments : Nat
  deriving DecidableEq, Repr

/-- What a component refers to in turn, its bases first. -/
def Component.calls (c : Component) : List Call :=
  c.bases.map (fun b => ⟨b.component, b.args.length⟩) ++
    c.statements.inits.map fun i => ⟨i.component, i.args.length⟩

/-- One call leads to another where the component it names makes that. -/
def Leads (components : List Component) (call next : Call) : Prop :=
  ∃ c, component? components call.component = some c ∧ next ∈ c.calls

/-- A way along calls from one to another, with the calls it passes before the last. -/
inductive Path (components : List Component) : Call → List Call → Call → Prop
  | here (call : Call) : Path components call [] call
  | step {call next last : Call} {path : List Call} (h : Leads components call next)
    (rest : Path components next path last) : Path components call (call :: path) last

/-- A call that cannot be followed while the components with the given names are open, and what is
wrong with it. -/
inductive Faulty (components : List Component) (opened : List String) (call : Call) :
    ParseFault → Prop
  | again (h : call.component ∈ opened) :
    Faulty components opened call (.selfInstantiation call.component)
  | unknown (h : component? components call.component = none) :
    Faulty components opened call (.unknownComponent call.component)
  | arguments {c : Component} (hc : component? components call.component = some c)
    (h : c.params.length ≠ call.arguments) :
    Faulty components opened call
      (.typeArguments call.component c.params.length call.arguments)

/-- A call of a component that there is, with a type for each parameter. -/
def Resolves (components : List Component) (call : Call) : Prop :=
  ∃ c, component? components call.component = some c ∧ c.params.length = call.arguments

variable {components : List Component} {call next last : Call} {path : List Call}
  {opened opened' : List String} {name qualifier : String} {args : List ColumnType} {c : Component}
  {fuel fuel' : Nat} {fault : ParseFault}

theorem Component.base_mem_calls {b : Base} (hb : b ∈ c.bases) :
    ⟨b.component, b.args.length⟩ ∈ c.calls := by
  apply List.mem_append_left
  exact List.mem_map.mpr ⟨b, hb, rfl⟩

theorem Component.init_mem_calls {i : Init} (hi : i ∈ c.statements.inits) :
    ⟨i.component, i.args.length⟩ ∈ c.calls := by
  apply List.mem_append_right
  exact List.mem_map.mpr ⟨i, hi, rfl⟩

theorem Faulty.mono (h : Faulty components opened call fault)
    (hopened : ∀ name ∈ opened, name ∈ opened') : Faulty components opened' call fault := by
  cases h with
  | again h => exact .again (hopened _ h)
  | unknown h => exact .unknown h
  | arguments hc h => exact .arguments hc h

section Expansion

/-- Fuel above the number of components that are not open is never used up. -/
theorem instantiate_fuel (hfuel : (unopened components opened).length < fuel)
    (hfuel' : (unopened components opened).length < fuel') :
    instantiate components fuel opened name args qualifier =
      instantiate components fuel' opened name args qualifier := by
  induction fuel generalizing fuel' opened name args qualifier with
  | zero => omega
  | succ fuel ih =>
    obtain ⟨fuel', rfl⟩ : ∃ n, fuel' = n + 1 := ⟨fuel' - 1, by omega⟩
    by_cases hopened : name ∈ opened
    · rw [instantiate_opened hopened, instantiate_opened hopened]
    cases hc : component? components name with
    | none => rw [instantiate_unknown hopened hc, instantiate_unknown hopened hc]
    | some c =>
      by_cases hargs : c.params.length = args.length
      · have hless := unopened_cons_lt hc hopened
        have hbases : inherit components fuel (name :: opened) c args qualifier =
            inherit components fuel' (name :: opened) c args qualifier :=
          mapM_congr fun b _ => ih (by omega) (by omega)
        have hinits : make components fuel (name :: opened) c args qualifier =
            make components fuel' (name :: opened) c args qualifier :=
          mapM_congr fun i _ => ih (by omega) (by omega)
        rw [instantiate_succ hopened hc hargs, instantiate_succ hopened hc hargs, hbases, hinits]
      · rw [instantiate_arguments hopened hc hargs, instantiate_arguments hopened hc hargs]

/-- An expansion that fails met a faulty call at the end of some path. -/
theorem exists_path_of_error (hfuel : (unopened components opened).length < fuel)
    (h : instantiate components fuel opened name args qualifier = .error fault) :
    ∃ path last, Path components ⟨name, args.length⟩ path last ∧
      Faulty components (path.map (·.component) ++ opened) last fault := by
  induction fuel generalizing opened name args qualifier with
  | zero => omega
  | succ fuel ih =>
    by_cases hopened : name ∈ opened
    · rw [instantiate_opened hopened] at h
      cases h
      exact ⟨[], _, .here _, .again hopened⟩
    cases hc : component? components name with
    | none =>
      rw [instantiate_unknown hopened hc] at h
      cases h
      exact ⟨[], _, .here _, .unknown hc⟩
    | some c =>
      by_cases hargs : c.params.length = args.length
      · have hless := unopened_cons_lt hc hopened
        -- What goes wrong inside the component goes wrong on a path that begins with it.
        have hinside {next : Call} {args' : List ColumnType} {qualifier' : String}
            (hnext : next ∈ c.calls) (hlength : args'.length = next.arguments)
            (herror : instantiate components fuel (name :: opened) next.component args' qualifier' =
              .error fault) :
            ∃ path last, Path components ⟨name, args.length⟩ path last ∧
              Faulty components (path.map (·.component) ++ opened) last fault := by
          obtain ⟨path, last, hpath, hfaulty⟩ := ih (by omega) herror
          rw [hlength] at hpath
          refine ⟨_, last, .step ⟨c, hc, hnext⟩ hpath, hfaulty.mono fun other hother => ?_⟩
          simp only [List.map_cons, List.cons_append, List.mem_append, List.mem_cons] at hother ⊢
          tauto
        rw [instantiate_succ hopened hc hargs] at h
        rcases bind_eq_error.mp h with hinherit | ⟨inherited, -, h⟩
        · obtain ⟨b, hb, herror⟩ := mapM_eq_error hinherit
          exact hinside (Component.base_mem_calls hb) (List.length_map _) herror
        · rcases bind_eq_error.mp h with hmake | ⟨made, -, h⟩
          · obtain ⟨i, hi, herror⟩ := mapM_eq_error hmake
            exact hinside (Component.init_mem_calls hi) (List.length_map _) herror
          · cases h
      · rw [instantiate_arguments hopened hc hargs] at h
        cases h
        exact ⟨[], _, .here _, .arguments hc hargs⟩

theorem error_of_faulty (h : Faulty components opened call fault)
    (hargs : args.length = call.arguments) :
    ∃ fault, instantiate components fuel opened call.component args qualifier = .error fault := by
  by_cases hopened : call.component ∈ opened
  · exact ⟨_, instantiate_opened hopened⟩
  cases fuel with
  | zero => exact ⟨_, rfl⟩
  | succ fuel =>
    cases h with
    | again h => exact absurd h hopened
    | unknown h => exact ⟨_, instantiate_unknown hopened h⟩
    | arguments hc h => exact ⟨_, instantiate_arguments hopened hc (hargs ▸ h)⟩

/-- What goes wrong in one of the calls that a component makes goes wrong in the component. -/
theorem error_of_call (hc : component? components name = some c) (hnext : next ∈ c.calls)
    (h : ∀ (args' : List ColumnType) (qualifier' : String), args'.length = next.arguments →
      ∃ fault, instantiate components fuel (name :: opened) next.component args' qualifier' =
        .error fault) :
    ∃ fault, instantiate components (fuel + 1) opened name args qualifier = .error fault := by
  by_cases hopened : name ∈ opened
  · exact ⟨_, instantiate_opened hopened⟩
  by_cases hargs : c.params.length = args.length
  · rw [instantiate_succ hopened hc hargs]
    cases hinherit : inherit components fuel (name :: opened) c args qualifier with
    | error fault => exact ⟨fault, rfl⟩
    | ok inherited =>
      rcases List.mem_append.mp hnext with hbase | hinit
      · obtain ⟨b, hb, rfl⟩ := List.mem_map.mp hbase
        obtain ⟨part, -, hpart⟩ := exists_instance_of_base hinherit hb
        obtain ⟨fault, herror⟩ := h _ qualifier (List.length_map _)
        rw [hpart] at herror
        cases herror
      · obtain ⟨i, hi, rfl⟩ := List.mem_map.mp hinit
        obtain ⟨fault, herror⟩ := h _ (qualify qualifier i.instanceName) (List.length_map _)
        obtain ⟨fault, hmake⟩ : ∃ fault, make components fuel (name :: opened) c args qualifier =
            .error fault := mapM_error_of_mem hi herror
        exact ⟨fault, by rw [ok_bind, hmake, error_bind]⟩
  · exact ⟨_, instantiate_arguments hopened hc hargs⟩

/-- A faulty call at the end of a path makes the whole expansion fail. -/
theorem error_of_path (hpath : Path components call path last)
    (hfaulty : Faulty components (path.map (·.component) ++ opened) last fault)
    (hargs : args.length = call.arguments) :
    ∃ fault, instantiate components fuel opened call.component args qualifier = .error fault := by
  induction hpath generalizing fuel opened args qualifier with
  | here call => exact error_of_faulty hfaulty hargs
  | step hleads _ ih =>
    cases fuel with
    | zero => exact ⟨_, rfl⟩
    | succ fuel =>
      obtain ⟨c, hc, hnext⟩ := hleads
      refine error_of_call hc hnext fun args' qualifier' hlength => ih ?_ hlength
      refine hfaulty.mono fun other hother => ?_
      simp only [List.map_cons, List.cons_append, List.mem_append, List.mem_cons] at hother ⊢
      tauto

end Expansion

section Reaching

theorem Path.reaches (h : Path components call path last) :
    Relation.ReflTransGen (Leads components) call last := by
  induction h with
  | here call => exact .refl
  | step hleads _ ih => exact .head hleads ih

theorem Path.of_mem (h : Path components call path last) (hnext : next ∈ path) :
    Relation.ReflTransGen (Leads components) call next ∧
      Relation.TransGen (Leads components) next last := by
  induction h with
  | here call => cases hnext
  | step hleads hrest ih =>
    rcases List.mem_cons.mp hnext with rfl | hnext
    · exact ⟨.refl, .head' hleads hrest.reaches⟩
    · obtain ⟨hbefore, hafter⟩ := ih hnext
      exact ⟨.head hleads hbefore, hafter⟩

theorem exists_path (h : Relation.ReflTransGen (Leads components) call last) :
    ∃ path, Path components call path last := by
  induction h using Relation.ReflTransGen.head_induction_on with
  | refl => exact ⟨[], .here _⟩
  | head hleads _ ih =>
    obtain ⟨path, hpath⟩ := ih
    exact ⟨_, .step hleads hpath⟩

theorem exists_path_through (h : Relation.ReflTransGen (Leads components) call next)
    (h' : Relation.TransGen (Leads components) next last) :
    ∃ path, Path components call path last ∧ next ∈ path := by
  induction h using Relation.ReflTransGen.head_induction_on with
  | refl =>
    obtain ⟨between, hleads, hrest⟩ := Relation.TransGen.head'_iff.mp h'
    obtain ⟨path, hpath⟩ := exists_path hrest
    exact ⟨_, .step hleads hpath, List.mem_cons_self⟩
  | head hleads _ ih =>
    obtain ⟨path, hpath, hmem⟩ := ih
    exact ⟨_, .step hleads hpath, List.mem_cons_of_mem _ hmem⟩

/-- No path ends in a faulty call just when all that can be reached resolves, and nothing is reached
from itself again. How many paths lead to a component does not matter. -/
theorem no_faulty_path_iff :
    (¬∃ path last fault, Path components call path last ∧
        Faulty components (path.map (·.component)) last fault) ↔
      ∀ reached, Relation.ReflTransGen (Leads components) call reached →
        Resolves components reached ∧
          ∀ again, Relation.TransGen (Leads components) reached again →
            again.component ≠ reached.component := by
  constructor
  · intro hnone reached hreached
    obtain ⟨path, hpath⟩ := exists_path hreached
    refine ⟨?_, ?_⟩
    · cases hc : component? components reached.component with
      | none => exact absurd ⟨path, reached, _, hpath, .unknown hc⟩ hnone
      | some c =>
        refine ⟨c, hc, ?_⟩
        by_contra hargs
        exact hnone ⟨path, reached, _, hpath, .arguments hc hargs⟩
    · intro again hagain heq
      obtain ⟨longer, hlonger, hmem⟩ := exists_path_through hreached hagain
      apply hnone
      exact ⟨longer, again, _, hlonger, .again (List.mem_map.mpr ⟨reached, hmem, heq.symm⟩)⟩
  · rintro hall ⟨path, last, fault, hpath, hfaulty⟩
    obtain ⟨c, hc, hargs⟩ := (hall last hpath.reaches).1
    cases hfaulty with
    | again h =>
      obtain ⟨reached, hmem, heq⟩ := List.mem_map.mp h
      obtain ⟨hreached, hagain⟩ := hpath.of_mem hmem
      exact (hall reached hreached).2 last hagain heq.symm
    | unknown h =>
      rw [hc] at h
      cases h
    | arguments hc' h =>
      rw [hc] at hc'
      cases hc'
      exact h hargs

end Reaching

/-- An expansion always ends, and fails just when some path of calls ends in a name without a
component, in a wrong number of arguments, or in a component that is on the path already. In
particular a component may be reached along several paths. -/
theorem instantiate_fails_iff (components : List Component) (name : String)
    (args : List ColumnType) (qualifier : String) :
    (∀ more, instantiate components (components.length + 1 + more) [] name args qualifier =
      instantiate components (components.length + 1) [] name args qualifier) ∧
    ((∃ fault, instantiate components (components.length + 1) [] name args qualifier =
        .error fault) ↔
      ∃ path last fault, Path components ⟨name, args.length⟩ path last ∧
        Faulty components (path.map (·.component)) last fault) ∧
    (∀ fault, instantiate components (components.length + 1) [] name args qualifier =
        .error fault →
      ∃ path last, Path components ⟨name, args.length⟩ path last ∧
        Faulty components (path.map (·.component)) last fault) ∧
    ((∃ i, instantiate components (components.length + 1) [] name args qualifier = .ok i) ↔
      ∀ call, Relation.ReflTransGen (Leads components) ⟨name, args.length⟩ call →
        Resolves components call ∧
          ∀ again, Relation.TransGen (Leads components) call again →
            again.component ≠ call.component) := by
  have henough : (unopened components []).length < components.length + 1 := by
    rw [unopened_nil]
    exact Nat.lt_succ_self _
  have hpath : ∀ fault, instantiate components (components.length + 1) [] name args qualifier =
        .error fault →
      ∃ path last, Path components ⟨name, args.length⟩ path last ∧
        Faulty components (path.map (·.component)) last fault := by
    intro fault herror
    simpa only [List.append_nil] using exists_path_of_error henough herror
  have hfails : (∃ fault, instantiate components (components.length + 1) [] name args qualifier =
        .error fault) ↔
      ∃ path last fault, Path components ⟨name, args.length⟩ path last ∧
        Faulty components (path.map (·.component)) last fault := by
    constructor
    · rintro ⟨fault, herror⟩
      obtain ⟨path, last, hway, hfaulty⟩ := hpath fault herror
      exact ⟨path, last, fault, hway, hfaulty⟩
    · rintro ⟨path, last, fault, hway, hfaulty⟩
      exact error_of_path hway (by rwa [List.append_nil]) rfl
  refine ⟨fun more => instantiate_fuel (by omega) henough, hfails, hpath, ?_⟩
  rw [← no_faulty_path_iff, ← hfails]
  cases instantiate components (components.length + 1) [] name args qualifier with
  | error fault => simp
  | ok i => simp

/-- A component with a relation of its own name. -/
def plainComponent (name : String) (bases : List String) (inits : List Init) : Component where
  name := name
  params := []
  bases := bases.map (⟨·, []⟩)
  statements := ⟨[], [⟨name, []⟩], [], inits⟩

/-- Two bases that have a base in common. -/
def diamond : List Component :=
  [plainComponent "Top" [] [], plainComponent "Left" ["Top"] [], plainComponent "Right" ["Top"] [],
    plainComponent "Both" ["Left", "Right"] []]

/-- A component that makes an instance of one that inherits from it. -/
def ring : List Component :=
  [plainComponent "Inner" ["Outer"] [], plainComponent "Outer" [] [⟨"in", "Inner", []⟩]]

theorem instantiate_fails_iff_ring :
    instantiate diamond 5 [] "Both" [] "b" =
        .ok ⟨[], [⟨"b.Top", []⟩, ⟨"b.Left", []⟩, ⟨"b.Top", []⟩, ⟨"b.Right", []⟩,
          ⟨"b.Both", []⟩], []⟩ ∧
      (∀ call, Relation.ReflTransGen (Leads diamond) ⟨"Both", 0⟩ call → Resolves diamond call) ∧
      instantiate ring 3 [] "Outer" [] "o" = .error (.selfInstantiation "Outer") ∧
      ∃ path last, Path ring ⟨"Outer", 0⟩ path last ∧
        Faulty ring (path.map (·.component)) last (.selfInstantiation "Outer") := by
  have hdiamond : instantiate diamond 5 [] "Both" [] "b" =
      .ok ⟨[], [⟨"b.Top", []⟩, ⟨"b.Left", []⟩, ⟨"b.Top", []⟩, ⟨"b.Right", []⟩,
        ⟨"b.Both", []⟩], []⟩ := by decide +kernel
  have hring : instantiate ring 3 [] "Outer" [] "o" = .error (.selfInstantiation "Outer") := by
    decide +kernel
  obtain ⟨-, -, -, hmade⟩ := instantiate_fails_iff diamond "Both" [] "b"
  obtain ⟨-, -, hpath, -⟩ := instantiate_fails_iff ring "Outer" [] "o"
  refine ⟨hdiamond, fun call hcall => ?_, hring, hpath _ hring⟩
  exact (hmade.mp ⟨_, hdiamond⟩ call hcall).1

end TreeFacts.Program
