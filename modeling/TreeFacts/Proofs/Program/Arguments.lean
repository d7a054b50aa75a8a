import Mathlib.Data.List.Nodup
import TreeFacts.Proofs.Program.Closed

namespace TreeFacts.Program

/-- Parameters that can be told apart, and that are not called like the types of the language. -/
structure Distinguished (params : List String) : Prop where
  nodup : params.Nodup
  number : "number" ∉ params
  symbol : "symbol" ∉ params

instance (params : List String) : Decidable (Distinguished params) :=
  decidable_of_iff (params.Nodup ∧ "number" ∉ params ∧ "symbol" ∉ params)
    ⟨fun h => ⟨h.1, h.2.1, h.2.2⟩, fun h => ⟨h.1, h.2, h.3⟩⟩

variable {components : List Component} {c : Component} {args : List ColumnType}
  {param name qualifier : String} {arg : ColumnType} {i : Interface}

theorem bind_param {params : List String} (hparams : params.Nodup)
    (hlength : params.length = args.length) (hmem : (param, arg) ∈ params.zip args) :
    bind (params.zip args) (.named param) = arg := by
  have hkeys : ((params.zip args).reverse.map (·.1)).Nodup := by
    rw [List.map_reverse, List.nodup_reverse, List.map_fst_zip (by omega)]
    exact hparams
  rw [bind, Entries.lookup_of_mem hkeys (List.mem_reverse.mpr hmem), Option.getD_some]

/-- An argument takes the place of its parameter just when it is not taken for a type of the
component's own. -/
theorem instanceType_param_iff {component : String} {fuel : Nat} {opened : List String}
    (h : instantiate components (fuel + 1) opened component args qualifier = .ok i)
    (hc : component? components component = some c) (hfuel : fuel ≤ components.length)
    (hparams : c.params.Nodup) (hmem : (param, arg) ∈ c.params.zip args) :
    instanceType components c args qualifier (.named param) = arg ↔
      ∀ name, arg = .named name → ¬Defines components c name := by
  obtain ⟨c', -, -, hc', -, hlength, -⟩ := instantiate_eq_ok h
  cases hc.symm.trans hc'
  unfold instanceType
  rw [bind_param hparams hlength hmem]
  cases arg with
  | number => exact ⟨fun _ name heq => absurd heq (by simp), fun _ => rfl⟩
  | symbol => exact ⟨fun _ name heq => absurd heq (by simp), fun _ => rfl⟩
  | named bound =>
    have hlocal : bound ∈ localTypes components components.length c ↔ Defines components c bound :=
      mem_localTypes_iff hc h hfuel
    by_cases hdefines : Defines components c bound
    · have hcontains := List.contains_iff_mem.mpr (hlocal.mpr hdefines)
      simp only [hcontains, if_true]
      constructor
      · intro heq
        exact absurd (ColumnType.named.inj heq) (qualify_ne qualifier bound)
      · intro hfree
        exact absurd hdefines (hfree bound rfl)
    · have hforeign : ¬(localTypes components components.length c).contains bound = true :=
        fun hmem => hdefines (hlocal.mp (List.contains_iff_mem.mp hmem))
      simp only [hforeign]
      refine ⟨fun _ name heq => ?_, fun _ => rfl⟩
      cases heq
      exact hdefines

/-- What an instance at the top of a program adds of its component's own. -/
theorem exists_own_of_parse {text : String} {statements : Statements} {init : Init}
    (hscan : scan (removeComments text.toList) = .ok (statements, components))
    (hparse : Interface.parse text = .ok i) (hinit : init ∈ statements.inits) :
    ∃ c part before after, component? components init.component = some c ∧
      instantiate components (components.length + 1) [] init.component init.args
        init.instanceName = .ok part ∧
      i = before ++ ownInterface c init.instanceName
        (instanceType components c init.args init.instanceName) ++ after := by
  obtain ⟨statements', components', made, hscan', hmade, rfl⟩ := Interface.parse_eq_ok hparse
  cases hscan.symm.trans hscan'
  obtain ⟨part, hpart, hinstance⟩ := exists_of_forall₂ (mapM_eq_ok.mp hmade).flip hinit
  obtain ⟨front, back, rfl⟩ := List.append_of_mem hpart
  obtain ⟨c, inherited, inside, hc, -, -, -, -, heq⟩ := instantiate_eq_ok hinstance
  let top : Interface := ⟨statements.types, statements.relations, statements.outputs⟩
  refine ⟨c, part, top ++ .concat front ++ .concat inherited, .concat inside ++ .concat back, hc,
    hinstance, ?_⟩
  rw [Interface.concat_append, Interface.concat_cons, heq]
  simp only [Interface.append_assoc, top]

/-- A component's own part of an instance has each argument in the place of its parameter just when
no argument that is needed there is called like a type that the component or one it inherits from
defines. -/
theorem parse_arguments {text : String} {statements : Statements} {init : Init}
    (hscan : scan (removeComments text.toList) = .ok (statements, components))
    (hparse : Interface.parse text = .ok i) (hinit : init ∈ statements.inits) :
    ∃ c before after, component? components init.component = some c ∧
      c.params.length = init.args.length ∧
      i = before ++ ownInterface c init.instanceName
        (instanceType components c init.args init.instanceName) ++ after ∧
      (Distinguished c.params →
        ((∀ param arg, (param, arg) ∈ c.params.zip init.args →
            .ofName param ∈ c.statements.uses →
            instanceType components c init.args init.instanceName (.ofName param) = arg) ↔
          ∀ param name, (param, .named name) ∈ c.params.zip init.args →
            .ofName param ∈ c.statements.uses → ¬Defines components c name)) := by
  obtain ⟨c, part, before, after, hc, hinstance, hi⟩ := exists_own_of_parse hscan hparse hinit
  obtain ⟨c', -, -, hc', -, hlength, -⟩ := instantiate_eq_ok hinstance
  cases hc.symm.trans hc'
  refine ⟨c, before, after, hc, hlength, hi, fun hparams => ?_⟩
  have hiff {param : String} {arg : ColumnType} (hmem : (param, arg) ∈ c.params.zip init.args) :
      instanceType components c init.args init.instanceName (.ofName param) = arg ↔
        ∀ name, arg = .named name → ¬Defines components c name := by
    have hparam := (List.of_mem_zip hmem).1
    have hnumber : param ≠ "number" := fun heq => hparams.number (heq ▸ hparam)
    have hsymbol : param ≠ "symbol" := fun heq => hparams.symbol (heq ▸ hparam)
    rw [ColumnType.ofName, if_neg hnumber, if_neg hsymbol]
    exact instanceType_param_iff hinstance hc (Nat.le_refl _) hparams.nodup hmem
  constructor
  · intro hall param name hmem huse
    exact (hiff hmem).mp (hall param _ hmem huse) name rfl
  · intro hfree param arg hmem huse
    refine (hiff hmem).mpr fun name heq => ?_
    subst heq
    exact hfree param name hmem huse

def nodesText : String :=
  ".type Node <: number\n" ++
  ".comp Graph<N, M> \x7b .type Path = [head: N, tail: Path] .decl mark(at: N, by: M) \x7d\n" ++
  ".init g = Graph<Node, symbol>\n"

def nodesGraph : Component where
  name := "Graph"
  params := ["N", "M"]
  bases := []
  statements := ⟨[.record "Path" [("head", .named "N"), ("tail", .named "Path")]],
    [⟨"mark", [("at", .named "N"), ("by", .named "M")]⟩], [], []⟩

def nodesInit : Init := ⟨"g", "Graph", [.named "Node", .symbol]⟩

def nodesProgram : Statements := ⟨[.subtype "Node" .number], [], [], [nodesInit]⟩

theorem parse_arguments_nodes :
    scan (removeComments nodesText.toList) = .ok (nodesProgram, [nodesGraph]) ∧
      Interface.parse nodesText = .ok
        ⟨[.subtype "Node" .number, .record "g.Path" [("head", .named "Node"), ("tail", .named "g.Path")]],
          [⟨"g.mark", [("at", .named "Node"), ("by", .symbol)]⟩], []⟩ ∧
      nodesInit ∈ nodesProgram.inits ∧ Distinguished nodesGraph.params ∧
      ∀ param arg, (param, arg) ∈ nodesGraph.params.zip nodesInit.args →
        .ofName param ∈ nodesGraph.statements.uses →
        instanceType [nodesGraph] nodesGraph nodesInit.args "g" (.ofName param) = arg := by
  have hscan : scan (removeComments nodesText.toList) = .ok (nodesProgram, [nodesGraph]) := by
    decide +kernel
  have hmade : instantiate [nodesGraph] 2 [] "Graph" [.named "Node", .symbol] "g" = .ok
      ⟨[.record "g.Path" [("head", .named "Node"), ("tail", .named "g.Path")]],
        [⟨"g.mark", [("at", .named "Node"), ("by", .symbol)]⟩], []⟩ := by decide +kernel
  have hparse := Interface.parse_of_scan hscan (mapM_eq_ok.mpr (.cons hmade .nil))
  have hinit : nodesInit ∈ nodesProgram.inits := List.mem_singleton.mpr rfl
  have hparams : Distinguished nodesGraph.params := by decide
  obtain ⟨c, -, -, hc, -, -, hiff⟩ := parse_arguments hscan hparse hinit
  have hgraph : component? [nodesGraph] "Graph" = some nodesGraph := by decide
  cases hgraph.symm.trans hc
  refine ⟨hscan, hparse, hinit, hparams, (hiff hparams).mpr ?_⟩
  intro param name hmem _ hdefines
  have hname : name = "Node" := by
    simp [nodesGraph, nodesInit] at hmem
    exact hmem.2
  have hown : name = "Path" := by
    cases hdefines with
    | own h => simpa [nodesGraph, TypeDef.name] using h
    | inherited hb => cases hb
  rw [hname] at hown
  exact absurd hown (by decide)

def takenText : String :=
  ".type Node <: number\n" ++
  ".comp Graph<N> \x7b .type Node <: symbol .decl edge(from: N, to: N) \x7d\n" ++
  ".init g = Graph<Node>\n"

/-- An argument is taken for a type of the component that has its name. -/
theorem parse_takenArgument :
    Interface.parse takenText = .ok
      ⟨[.subtype "Node" .number, .subtype "g.Node" .symbol],
        [⟨"g.edge", [("from", .named "g.Node"), ("to", .named "g.Node")]⟩], []⟩ := by
  decide +kernel

end TreeFacts.Program
