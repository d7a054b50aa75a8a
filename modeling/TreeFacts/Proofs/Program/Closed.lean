import TreeFacts.Entries
import TreeFacts.Proofs.Program.Expansion

namespace TreeFacts.Program

/-- A name for a type that no component has to declare. -/
def Statements.Provides (s : Statements) (name : String) : Prop :=
  name = "id" ∨ name = "bool" ∨ name ∈ s.types.map (·.name)

/-- All types in statements, those for the parameters of instances among them. -/
def Statements.mentions (s : Statements) : List ColumnType := s.uses ++ s.inits.flatMap (·.args)

/-- A name in a component that its instances cannot resolve: for a base only parameters are looked
up, elsewhere also the types of the component and of those it inherits from. Types of a component
around it are never looked up. -/
def Loose (components : List Component) (c : Component) (name : String) : Prop :=
  name ∉ c.params ∧
    ((∃ b ∈ c.bases, .named name ∈ b.args) ∨
      .named name ∈ c.statements.mentions ∧ ¬Defines components c name)

/-- A name in a program that stands for no type. -/
def Dangles (statements : Statements) (components : List Component) (name : String) : Prop :=
  ¬statements.Provides name ∧
    (.named name ∈ statements.mentions ∨ ∃ c ∈ components, Loose components c name)

/-- Every type that an interface refers to is built in or defined in the interface itself. -/
def Interface.Closed (i : Interface) : Prop :=
  ∀ name, .named name ∈ i.uses → name = "id" ∨ name = "bool" ∨ name ∈ i.declares

variable {components : List Component} {c : Component} {args : List ColumnType}
  {type : ColumnType} {name qualifier : String}

theorem bind_eq_named {params : List String} (hargs : params.length = args.length)
    (h : bind (params.zip args) type = .named name) :
    type = .named name ∧ name ∉ params ∨ .named name ∈ args := by
  cases type with
  | number => cases h
  | symbol => cases h
  | named own =>
    rw [bind] at h
    cases hlookup : (params.zip args).reverse.lookup own with
    | none =>
      rw [hlookup, Option.getD_none] at h
      cases h
      refine Or.inl ⟨rfl, fun hmem => Entries.lookup_eq_none_iff.mp hlookup ?_⟩
      rwa [List.map_reverse, List.mem_reverse, List.map_fst_zip (by omega)]
    | some bound =>
      rw [hlookup, Option.getD_some] at h
      have hmem := List.mem_reverse.mp (Entries.mem_of_lookup hlookup)
      exact Or.inr (h ▸ (List.of_mem_zip hmem).2)

theorem instanceType_eq_named (h : instanceType components c args qualifier type = .named name) :
    ∃ bound, bind (c.params.zip args) type = .named bound ∧
      (bound ∈ localTypes components components.length c ∧ name = qualify qualifier bound ∨
        bound ∉ localTypes components components.length c ∧ name = bound) := by
  unfold instanceType at h
  cases hbound : bind (c.params.zip args) type with
  | number => rw [hbound] at h; cases h
  | symbol => rw [hbound] at h; cases h
  | named bound =>
    rw [hbound] at h
    simp only at h
    split at h
    next hlocal =>
      cases h
      exact ⟨bound, rfl, Or.inl ⟨by simpa using hlocal, rfl⟩⟩
    next hforeign =>
      cases h
      exact ⟨name, rfl, Or.inr ⟨by simpa using hforeign, rfl⟩⟩

section

variable {known : String → Prop} {fuel : Nat} {opened : List String} {component : String}
  {i : Interface}

/-- Whatever stands in a component's own statements is known or defined by the instance. -/
theorem known_of_instanceType
    (h : instantiate components (fuel + 1) opened component args qualifier = .ok i)
    (hc : component? components component = some c) (hfuel : fuel ≤ components.length)
    (hloose : ∀ name, Loose components c name → known name)
    (hargs : ∀ name, .named name ∈ args → known name) (htype : type ∈ c.statements.mentions)
    (hnamed : instanceType components c args qualifier type = .named name) :
    known name ∨ name ∈ i.declares := by
  obtain ⟨c', -, -, hc', -, hlength, -⟩ := instantiate_eq_ok h
  cases hc.symm.trans hc'
  have hlocal {type : String} :
      type ∈ localTypes components components.length c ↔ Defines components c type :=
    mem_localTypes_iff hc h hfuel
  obtain ⟨bound, hbound, hcases⟩ := instanceType_eq_named hnamed
  rcases hcases with ⟨hbelongs, rfl⟩ | ⟨hforeign, rfl⟩
  · exact Or.inr (qualify_mem_declares (hlocal.mp hbelongs) hc h)
  · rcases bind_eq_named hlength hbound with ⟨rfl, hparam⟩ | harg
    · have hdefines := fun hdefined => hforeign (hlocal.mpr hdefined)
      exact Or.inl (hloose name ⟨hparam, Or.inr ⟨htype, hdefines⟩⟩)
    · exact Or.inl (hargs name harg)

theorem known_of_base {b : Base} (hlength : c.params.length = args.length)
    (hloose : ∀ name, Loose components c name → known name)
    (hargs : ∀ name, .named name ∈ args → known name) (hb : b ∈ c.bases)
    (hname : .named name ∈ b.args.map (bind (c.params.zip args))) : known name := by
  obtain ⟨type, htype, hbound⟩ := List.mem_map.mp hname
  rcases bind_eq_named hlength hbound with ⟨rfl, hparam⟩ | harg
  · exact hloose name ⟨hparam, Or.inl ⟨b, hb, htype⟩⟩
  · exact hargs name harg

theorem mem_declares_of_part {inherited made : List Interface} {own part : Interface}
    (hi : i = .concat inherited ++ own ++ .concat made) (hpart : part ∈ inherited ∨ part ∈ made)
    (hname : name ∈ part.declares) : name ∈ i.declares := by
  rw [hi, Interface.mem_declares_append, Interface.mem_declares_append,
    Interface.mem_declares_concat, Interface.mem_declares_concat]
  rcases hpart with hpart | hpart
  · exact Or.inl (Or.inl ⟨part, hpart, hname⟩)
  · exact Or.inr ⟨part, hpart, hname⟩

/-- The names in an instance are among those it defines and those known where it is made. -/
theorem known_of_mem_uses
    (h : instantiate components fuel opened component args qualifier = .ok i)
    (hfuel : fuel ≤ components.length + 1)
    (hloose : ∀ c ∈ components, ∀ name, Loose components c name → known name)
    (hargs : ∀ name, .named name ∈ args → known name)
    (hname : .named name ∈ i.uses) : known name ∨ name ∈ i.declares := by
  induction fuel generalizing known opened component args qualifier i name with
  | zero => cases h
  | succ fuel ih =>
    obtain ⟨c, inherited, made, hc, -, hlength, hinherited, hmade, hi⟩ := instantiate_eq_ok h
    have hmem := (component?_eq_some hc).1
    have hchange {type : ColumnType} {name : String} (htype : type ∈ c.statements.mentions)
        (hnamed : instanceType components c args qualifier type = .named name) :
        known name ∨ name ∈ i.declares :=
      known_of_instanceType h hc (by omega) (hloose c hmem) hargs htype hnamed
    rw [hi, Interface.mem_uses_append, Interface.mem_uses_append] at hname
    rcases hname with (hname | hname) | hname
    · obtain ⟨part, hpart, hname⟩ := Interface.mem_uses_concat.mp hname
      obtain ⟨b, hb, hpart'⟩ := exists_of_forall₂ (mapM_eq_ok.mp hinherited) hpart
      have hbase (name : String) (hname : .named name ∈ b.args.map (bind (c.params.zip args))) :
          known name := known_of_base hlength (hloose c hmem) hargs hb hname
      exact (ih hpart' (by omega) hloose hbase hname).imp_right
        (mem_declares_of_part hi (Or.inl hpart))
    · rw [uses_ownInterface] at hname
      obtain ⟨type, htype, hnamed⟩ := List.mem_map.mp hname
      exact hchange (List.mem_append_left _ htype) hnamed
    · obtain ⟨part, hpart, hname⟩ := Interface.mem_uses_concat.mp hname
      obtain ⟨init, hinit, hpart'⟩ := exists_of_forall₂ (mapM_eq_ok.mp hmade) hpart
      have hinner (name : String)
          (hname : .named name ∈ init.args.map (instanceType components c args qualifier)) :
          known name ∨ name ∈ i.declares := by
        obtain ⟨type, htype, hnamed⟩ := List.mem_map.mp hname
        have hmention : type ∈ c.statements.inits.flatMap (·.args) :=
          List.mem_flatMap.mpr ⟨init, hinit, htype⟩
        exact hchange (List.mem_append_right _ hmention) hnamed
      -- An instance inside may be given any type that the one around it defines.
      have hknown : (known name ∨ name ∈ i.declares) ∨ name ∈ part.declares :=
        ih hpart' (by omega) (fun c hc name hname => Or.inl (hloose c hc name hname)) hinner hname
      rcases hknown with hknown | hdeclares
      · exact hknown
      · exact Or.inr (mem_declares_of_part hi (Or.inr hpart) hdeclares)

end

section

variable {statements : Statements}

theorem provides_or_dangles_of_mention (h : .named name ∈ statements.mentions) :
    statements.Provides name ∨ Dangles statements components name := by
  by_cases hprovides : statements.Provides name
  · exact Or.inl hprovides
  · exact Or.inr ⟨hprovides, Or.inl h⟩

theorem provides_or_dangles_of_loose (hc : c ∈ components) (h : Loose components c name) :
    statements.Provides name ∨ Dangles statements components name := by
  by_cases hprovides : statements.Provides name
  · exact Or.inl hprovides
  · exact Or.inr ⟨hprovides, Or.inr ⟨c, hc, h⟩⟩

/-- A name in an instance that a program makes is the instance's, the program's or dangles. -/
theorem declares_of_mem_uses {init : Init} (hinit : init ∈ statements.inits) {part : Interface}
    (hpart : instantiate components (components.length + 1) [] init.component init.args
      init.instanceName = .ok part) (hname : .named name ∈ part.uses) :
    (statements.Provides name ∨ Dangles statements components name) ∨ name ∈ part.declares := by
  have hloose (c : Component) (hc : c ∈ components) (name : String) (h : Loose components c name) :
      statements.Provides name ∨ Dangles statements components name :=
    provides_or_dangles_of_loose hc h
  have hargs (name : String) (harg : .named name ∈ init.args) :
      statements.Provides name ∨ Dangles statements components name :=
    provides_or_dangles_of_mention
      (List.mem_append_right _ (List.mem_flatMap.mpr ⟨init, hinit, harg⟩))
  exact known_of_mem_uses hpart (Nat.le_refl _) hloose hargs hname

end

/-- An interface is closed where no name of the program dangles, and what it refers to without
defining it is a name that dangles. -/
theorem parse_closed {text : String} {statements : Statements} {interface : Interface}
    (hscan : scan (removeComments text.toList) = .ok (statements, components))
    (hparse : Interface.parse text = .ok interface) :
    ((∀ name, ¬Dangles statements components name) → interface.Closed) ∧
      ∀ name, .named name ∈ interface.uses →
        name = "id" ∨ name = "bool" ∨ name ∈ interface.declares ∨
          Dangles statements components name := by
  have hmain (name : String) (hname : .named name ∈ interface.uses) :
      name = "id" ∨ name = "bool" ∨ name ∈ interface.declares ∨
        Dangles statements components name := by
    obtain ⟨statements', components', made, hscan', hmade, rfl⟩ := Interface.parse_eq_ok hparse
    cases hscan.symm.trans hscan'
    rw [Interface.mem_declares_append, Interface.mem_declares_concat]
    have htop (h : statements.Provides name ∨ Dangles statements components name) :
        name = "id" ∨ name = "bool" ∨
          ((name ∈ Interface.declares ⟨statements.types, statements.relations, statements.outputs⟩ ∨
            ∃ part ∈ made, name ∈ part.declares) ∨ Dangles statements components name) := by
      rcases h with (hid | hbool | htype) | hdangles
      · exact Or.inl hid
      · exact Or.inr (Or.inl hbool)
      · exact Or.inr (Or.inr (Or.inl (Or.inl htype)))
      · exact Or.inr (Or.inr (Or.inr hdangles))
    rcases Interface.mem_uses_append.mp hname with hname | hname
    · exact htop (provides_or_dangles_of_mention (List.mem_append_left _ hname))
    · obtain ⟨part, hpart, hname⟩ := Interface.mem_uses_concat.mp hname
      obtain ⟨init, hinit, hpart'⟩ := exists_of_forall₂ (mapM_eq_ok.mp hmade) hpart
      rcases declares_of_mem_uses hinit hpart' hname with h | hdeclares
      · exact htop h
      · exact Or.inr (Or.inr (Or.inl (Or.inr ⟨part, hpart, hdeclares⟩)))
  refine ⟨fun hnone name hname => ?_, hmain⟩
  rcases hmain name hname with hid | hbool | hdeclares | hdangles
  · exact Or.inl hid
  · exact Or.inr (Or.inl hbool)
  · exact Or.inr (Or.inr hdeclares)
  · exact absurd hdangles (hnone name)

/-- Paths over a component's parameter. -/
def pathGraph : Component where
  name := "Graph"
  params := ["N"]
  bases := []
  statements := ⟨[.record "Path" [("head", .named "N"), ("tail", .named "Path")]], [], [], []⟩

/-- A graph of nodes that makes another one, of its own paths. -/
def pathFlow : Component where
  name := "Flow"
  params := []
  bases := [⟨"Graph", [.named "id"]⟩]
  statements := ⟨[], [⟨"via", [("path", .named "Path")]⟩], [], [⟨"in", "Graph", [.named "Path"]⟩]⟩

def pathProgram : Statements := ⟨[], [], [], [⟨"f", "Flow", []⟩]⟩

def pathText : String :=
  ".comp Graph<N> \x7b .type Path = [head: N, tail: Path] \x7d\n" ++
  ".comp Flow : Graph<id> \x7b .decl via(path: Path) .init in = Graph<Path> \x7d\n" ++
  ".init f = Flow\n"

def pathInterface : Interface where
  types := [.record "f.Path" [("head", .named "id"), ("tail", .named "f.Path")],
    .record "f.in.Path" [("head", .named "f.Path"), ("tail", .named "f.in.Path")]]
  relations := [⟨"f.via", [("path", .named "f.Path")]⟩]
  outputs := []

theorem path_not_dangles (name : String) : ¬Dangles pathProgram [pathGraph, pathFlow] name := by
  have hpath : Defines [pathGraph, pathFlow] pathGraph "Path" := .own (by decide)
  have habove : component? [pathGraph, pathFlow] "Graph" = some pathGraph := by decide
  rintro ⟨hprovides, hmention | ⟨c, hc, hparam, hloose⟩⟩
  · simp [Statements.mentions, Statements.uses, usedTypes, pathProgram] at hmention
  · have hid : name ≠ "id" := fun heq => hprovides (Or.inl heq)
    simp only [List.mem_cons, List.not_mem_nil, or_false] at hc
    rcases hc with rfl | rfl
    · rcases hloose with ⟨b, hb, -⟩ | ⟨hmention, hdefines⟩
      · cases hb
      · have hname : name = "N" ∨ name = "Path" := by
          simpa [Statements.mentions, Statements.uses, usedTypes, TypeDef.uses, pathGraph]
            using hmention
        rcases hname with rfl | rfl
        · exact hparam (by decide)
        · exact hdefines hpath
    · rcases hloose with ⟨b, hb, harg⟩ | ⟨hmention, hdefines⟩
      · simp only [pathFlow, List.mem_singleton] at hb
        rw [hb] at harg
        exact hid (by simpa using harg)
      · have hname : name = "Path" := by
          simpa [Statements.mentions, Statements.uses, usedTypes, TypeDef.uses, pathFlow]
            using hmention
        subst hname
        exact hdefines (.inherited (List.mem_singleton.mpr rfl) habove hpath)

theorem parse_closed_path :
    scan (removeComments pathText.toList) = .ok (pathProgram, [pathGraph, pathFlow]) ∧
      Interface.parse pathText = .ok pathInterface ∧
      (∀ name, ¬Dangles pathProgram [pathGraph, pathFlow] name) ∧ pathInterface.Closed := by
  have hscan : scan (removeComments pathText.toList) = .ok (pathProgram, [pathGraph, pathFlow]) := by
    decide +kernel
  have hmade : instantiate [pathGraph, pathFlow] 3 [] "Flow" [] "f" = .ok pathInterface := by
    decide +kernel
  have hparse : Interface.parse pathText = .ok pathInterface :=
    Interface.parse_of_scan hscan (mapM_eq_ok.mpr (.cons hmade .nil))
  exact ⟨hscan, hparse, path_not_dangles, (parse_closed hscan hparse).1 path_not_dangles⟩

def blockGraph : Component where
  name := "Graph"
  params := ["N"]
  bases := []
  statements := ⟨[], [⟨"edge", [("from", .named "N"), ("to", .named "N")]⟩], [], []⟩

def blockFlow : Component where
  name := "Flow"
  params := []
  bases := [⟨"Graph", [.named "Block"]⟩]
  statements := ⟨[.subtype "Block" .number], [], [], []⟩

def blockText : String :=
  ".comp Graph<N> \x7b .decl edge(from: N, to: N) \x7d\n" ++
  ".comp Flow : Graph<Block> \x7b .type Block <: number \x7d\n" ++
  ".init flow = Flow\n"

def blockInterface : Interface :=
  ⟨[.subtype "flow.Block" .number],
    [⟨"flow.edge", [("from", .named "Block"), ("to", .named "Block")]⟩], []⟩

/-- A type of a component's own, given to a base, is left without the instance's name. -/
theorem parse_looseBase :
    scan (removeComments blockText.toList) =
        .ok (⟨[], [], [], [⟨"flow", "Flow", []⟩]⟩, [blockGraph, blockFlow]) ∧
      Defines [blockGraph, blockFlow] blockFlow "Block" ∧
      Interface.parse blockText = .ok blockInterface ∧ ¬blockInterface.Closed := by
  have hscan : scan (removeComments blockText.toList) =
      .ok (⟨[], [], [], [⟨"flow", "Flow", []⟩]⟩, [blockGraph, blockFlow]) := by decide +kernel
  have hmade : instantiate [blockGraph, blockFlow] 3 [] "Flow" [] "flow" = .ok blockInterface := by
    decide +kernel
  have hparse : Interface.parse blockText = .ok blockInterface :=
    Interface.parse_of_scan hscan (mapM_eq_ok.mpr (.cons hmade .nil))
  refine ⟨hscan, .own (by decide), hparse, fun hclosed => ?_⟩
  have hname := hclosed "Block" (by decide)
  simp [blockInterface, Interface.declares, TypeDef.name] at hname

end TreeFacts.Program
