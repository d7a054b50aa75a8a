import TreeFacts.Program.Interface
import TreeFacts.Proofs.Result

namespace TreeFacts

/-- The types that a definition refers to. -/
def TypeDef.uses : TypeDef → List ColumnType
  | .subtype _ base => [base]
  | .record _ fields => fields.map (·.2)
  | .union _ branches => branches.flatMap fun b => b.fields.map (·.2)

namespace Program

variable {rename : String → String} {change : ColumnType → ColumnType} {type : ColumnType}
  {name qualifier : String}

@[simp] theorem name_mapTypeDef (d : TypeDef) : (mapTypeDef rename change d).name = rename d.name := by
  cases d <;> rfl

@[simp] theorem uses_mapTypeDef (d : TypeDef) :
    (mapTypeDef rename change d).uses = d.uses.map change := by
  cases d with
  | subtype name base => rfl
  | record name fields => simp [mapTypeDef, TypeDef.uses]
  | union name branches => simp [mapTypeDef, TypeDef.uses, List.flatMap_map, List.map_flatMap, Function.comp_def]

/-- The types that definitions and columns refer to. -/
def usedTypes (types : List TypeDef) (relations : List Relation) : List ColumnType :=
  types.flatMap TypeDef.uses ++ relations.flatMap fun r => r.columns.map (·.2)

def Statements.uses (s : Statements) : List ColumnType := usedTypes s.types s.relations

namespace Interface

def uses (i : Interface) : List ColumnType := usedTypes i.types i.relations

/-- The names of the types that an interface defines. -/
def declares (i : Interface) : List String := i.types.map (·.name)

theorem append_assoc (a b c : Interface) : a ++ b ++ c = a ++ (b ++ c) := by
  show Interface.mk _ _ _ = Interface.mk _ _ _
  simp only [Interface.mk.injEq]
  exact ⟨List.append_assoc .., List.append_assoc .., List.append_assoc ..⟩

theorem append_empty (i : Interface) : i ++ empty = i := by
  show Interface.mk (i.types ++ []) (i.relations ++ []) (i.outputs ++ []) = i
  simp only [List.append_nil]

theorem empty_append (i : Interface) : empty ++ i = i := rfl

theorem foldl_append (a b : Interface) (parts : List Interface) :
    parts.foldl (· ++ ·) (a ++ b) = a ++ parts.foldl (· ++ ·) b := by
  induction parts generalizing b with
  | nil => rfl
  | cons part parts ih => rw [List.foldl_cons, List.foldl_cons, append_assoc, ih]

theorem concat_nil : concat [] = empty := rfl

theorem concat_cons (part : Interface) (parts : List Interface) :
    concat (part :: parts) = part ++ concat parts := by
  rw [concat, concat, List.foldl_cons, empty_append, ← foldl_append, append_empty]

theorem concat_append (front back : List Interface) :
    concat (front ++ back) = concat front ++ concat back := by
  induction front with
  | nil => rfl
  | cons part front ih => rw [List.cons_append, concat_cons, concat_cons, ih, append_assoc]

theorem mem_declares_append {a b : Interface} :
    name ∈ (a ++ b).declares ↔ name ∈ a.declares ∨ name ∈ b.declares := by
  show name ∈ (a.types ++ b.types).map (·.name) ↔ _
  rw [List.map_append, List.mem_append]
  rfl

theorem mem_uses_append {a b : Interface} :
    type ∈ (a ++ b).uses ↔ type ∈ a.uses ∨ type ∈ b.uses := by
  show type ∈ usedTypes (a.types ++ b.types) (a.relations ++ b.relations) ↔
    type ∈ usedTypes a.types a.relations ∨ type ∈ usedTypes b.types b.relations
  simp only [usedTypes, List.flatMap_append, List.mem_append]
  tauto

theorem mem_declares_concat {parts : List Interface} :
    name ∈ (concat parts).declares ↔ ∃ part ∈ parts, name ∈ part.declares := by
  induction parts with
  | nil => simp [concat_nil, empty, declares]
  | cons part parts ih => rw [concat_cons, mem_declares_append, ih, List.exists_mem_cons_iff]

theorem mem_uses_concat {parts : List Interface} :
    type ∈ (concat parts).uses ↔ ∃ part ∈ parts, type ∈ part.uses := by
  induction parts with
  | nil => simp [concat_nil, empty, uses, usedTypes]
  | cons part parts ih => rw [concat_cons, mem_uses_append, ih, List.exists_mem_cons_iff]

end Interface

section

variable {c : Component}

theorem declares_ownInterface :
    (ownInterface c qualifier change).declares =
      c.statements.types.map fun d => qualify qualifier d.name := by
  simp [ownInterface, Interface.declares]

theorem uses_ownInterface :
    (ownInterface c qualifier change).uses = c.statements.uses.map change := by
  simp [ownInterface, Interface.uses, Statements.uses, usedTypes, List.flatMap_map,
    List.map_flatMap, Function.comp_def]

end

theorem qualify_ne (qualifier name : String) : qualify qualifier name ≠ name := by
  intro h
  have hlength := congrArg String.length h
  simp [qualify] at hlength

variable {components : List Component} {c : Component} {fuel : Nat} {opened : List String}
  {args : List ColumnType} {i : Interface}

theorem component?_eq_some (h : component? components name = some c) :
    c ∈ components ∧ c.name = name := by
  have hfound := List.mem_of_find?_eq_some h
  exact ⟨List.mem_reverse.mp hfound, by simpa using List.find?_some h⟩

/-- The instances of a component's bases, under the qualifier of the component's own instance. -/
def inherit (components : List Component) (fuel : Nat) (opened : List String) (c : Component)
    (args : List ColumnType) (qualifier : String) : Except ParseFault (List Interface) :=
  c.bases.mapM fun b =>
    instantiate components fuel opened b.component (b.args.map (bind (c.params.zip args))) qualifier

/-- The instances that a component makes. -/
def make (components : List Component) (fuel : Nat) (opened : List String) (c : Component)
    (args : List ColumnType) (qualifier : String) : Except ParseFault (List Interface) :=
  c.statements.inits.mapM fun i =>
    instantiate components fuel opened i.component
      (i.args.map (instanceType components c args qualifier)) (qualify qualifier i.instanceName)

theorem instantiate_opened (h : name ∈ opened) :
    instantiate components fuel opened name args qualifier = .error (.selfInstantiation name) := by
  cases fuel with
  | zero => rfl
  | succ fuel => rw [instantiate, if_pos (by simpa using h)]

theorem instantiate_unknown (hopened : name ∉ opened) (hc : component? components name = none) :
    instantiate components (fuel + 1) opened name args qualifier =
      .error (.unknownComponent name) := by
  rw [instantiate, if_neg (by simpa using hopened), hc]

theorem instantiate_arguments (hopened : name ∉ opened) (hc : component? components name = some c)
    (hargs : c.params.length ≠ args.length) :
    instantiate components (fuel + 1) opened name args qualifier =
      .error (.typeArguments name c.params.length args.length) := by
  rw [instantiate, if_neg (by simpa using hopened), hc]
  simp only [if_neg hargs]

theorem instantiate_succ (hopened : name ∉ opened) (hc : component? components name = some c)
    (hargs : c.params.length = args.length) :
    instantiate components (fuel + 1) opened name args qualifier = do
      let inherited ← inherit components fuel (name :: opened) c args qualifier
      let made ← make components fuel (name :: opened) c args qualifier
      return .concat inherited ++ ownInterface c qualifier (instanceType components c args qualifier) ++
        .concat made := by
  rw [instantiate, if_neg (by simpa using hopened), hc]
  simp only
  rw [if_pos hargs]
  rfl

/-- What an instance consists of. -/
theorem instantiate_eq_ok
    (h : instantiate components (fuel + 1) opened name args qualifier = .ok i) :
    ∃ c inherited made, component? components name = some c ∧ name ∉ opened ∧
      c.params.length = args.length ∧
      inherit components fuel (name :: opened) c args qualifier = .ok inherited ∧
      make components fuel (name :: opened) c args qualifier = .ok made ∧
      i = .concat inherited ++
        ownInterface c qualifier (instanceType components c args qualifier) ++ .concat made := by
  by_cases hopened : name ∈ opened
  · rw [instantiate_opened hopened] at h
    cases h
  · cases hc : component? components name with
    | none =>
      rw [instantiate_unknown hopened hc] at h
      cases h
    | some c =>
      by_cases hargs : c.params.length = args.length
      · rw [instantiate_succ hopened hc hargs] at h
        obtain ⟨inherited, hinherited, h⟩ := bind_eq_ok.mp h
        obtain ⟨made, hmade, h⟩ := bind_eq_ok.mp h
        cases h
        exact ⟨c, inherited, made, rfl, hopened, hargs, hinherited, hmade, rfl⟩
      · rw [instantiate_arguments hopened hc hargs] at h
        cases h

theorem exists_instance_of_base {inherited : List Interface} {b : Base}
    (h : inherit components fuel opened c args qualifier = .ok inherited) (hb : b ∈ c.bases) :
    ∃ part ∈ inherited, instantiate components fuel opened b.component
      (b.args.map (bind (c.params.zip args))) qualifier = .ok part := by
  obtain ⟨part, hpart, heq⟩ := exists_of_forall₂ (mapM_eq_ok.mp h).flip hb
  exact ⟨part, hpart, heq⟩

/-- The names of the types that a component or one it inherits from defines. -/
inductive Defines (components : List Component) : Component → String → Prop
  | own {c : Component} {name : String} (h : name ∈ c.statements.types.map (·.name)) :
    Defines components c name
  | inherited {c above : Component} {b : Base} {name : String} (hb : b ∈ c.bases)
    (habove : component? components b.component = some above) (h : Defines components above name) :
    Defines components c name

theorem localTypes_succ (components : List Component) (fuel : Nat) (c : Component) :
    name ∈ localTypes components (fuel + 1) c ↔ name ∈ c.statements.types.map (·.name) ∨
      ∃ b ∈ c.bases, ∃ above, component? components b.component = some above ∧
        name ∈ localTypes components fuel above := by
  rw [localTypes, List.mem_append, List.mem_flatMap]
  refine or_congr_right (exists_congr fun b => and_congr_right fun _ => ?_)
  cases component? components b.component with
  | none => simp
  | some above => simp

theorem defines_of_mem_localTypes (h : name ∈ localTypes components fuel c) :
    Defines components c name := by
  induction fuel generalizing c with
  | zero => exact .own h
  | succ fuel ih =>
    rcases (localTypes_succ components fuel c).mp h with hown | ⟨b, hb, above, habove, hname⟩
    · exact .own hown
    · exact .inherited hb habove (ih hname)

theorem localTypes_mono {more : Nat} (h : name ∈ localTypes components fuel c)
    (hmore : fuel ≤ more) : name ∈ localTypes components more c := by
  induction fuel generalizing c more with
  | zero =>
    cases more with
    | zero => exact h
    | succ more => exact (localTypes_succ components more c).mpr (Or.inl h)
  | succ fuel ih =>
    obtain ⟨more, rfl⟩ : ∃ n, more = n + 1 := ⟨more - 1, by omega⟩
    refine (localTypes_succ components more c).mpr ?_
    rcases (localTypes_succ components fuel c).mp h with hown | ⟨b, hb, above, habove, hname⟩
    · exact Or.inl hown
    · exact Or.inr ⟨b, hb, above, habove, ih hname (by omega)⟩

/-- The bases of an instance can only be made where inheritance is nested no deeper than the
fuel. -/
theorem mem_localTypes_of_defines (hname : Defines components c name) {inherited : List Interface}
    (h : inherit components fuel opened c args qualifier = .ok inherited) :
    name ∈ localTypes components fuel c := by
  induction hname generalizing fuel opened args inherited with
  | own hown =>
    cases fuel with
    | zero => exact hown
    | succ fuel => exact (localTypes_succ components fuel _).mpr (Or.inl hown)
  | @inherited c above b name hb habove hname ih =>
    obtain ⟨part, -, hpart⟩ := exists_instance_of_base h hb
    cases fuel with
    | zero => cases hpart
    | succ fuel =>
      obtain ⟨c', more, -, hc', -, -, hmore, -, -⟩ := instantiate_eq_ok hpart
      cases habove.symm.trans hc'
      exact (localTypes_succ components fuel c).mpr (Or.inr ⟨b, hb, above, habove, ih hmore⟩)

theorem mem_localTypes_iff_of_inherit {inherited : List Interface}
    (h : inherit components fuel opened c args qualifier = .ok inherited)
    {depth : Nat} (hdepth : fuel ≤ depth) {type : String} :
    type ∈ localTypes components depth c ↔ Defines components c type :=
  ⟨defines_of_mem_localTypes,
    fun hdefines => localTypes_mono (mem_localTypes_of_defines hdefines h) hdepth⟩

theorem mem_localTypes_iff (hc : component? components name = some c)
    (h : instantiate components (fuel + 1) opened name args qualifier = .ok i)
    {depth : Nat} (hdepth : fuel ≤ depth) {type : String} :
    type ∈ localTypes components depth c ↔ Defines components c type := by
  obtain ⟨c', inherited, -, hc', -, -, hinherited, -, -⟩ := instantiate_eq_ok h
  cases hc.symm.trans hc'
  exact mem_localTypes_iff_of_inherit hinherited hdepth

/-- What a component and those it inherits from define is in each of its instances. -/
theorem qualify_mem_declares {type : String} (hname : Defines components c type)
    (hc : component? components name = some c)
    (h : instantiate components fuel opened name args qualifier = .ok i) :
    qualify qualifier type ∈ i.declares := by
  induction hname generalizing fuel opened name args i with
  | @own c type hown =>
    cases fuel with
    | zero => cases h
    | succ fuel =>
      obtain ⟨c', inherited, made, hc', -, -, -, -, rfl⟩ := instantiate_eq_ok h
      cases hc.symm.trans hc'
      obtain ⟨d, hd, rfl⟩ := List.mem_map.mp hown
      refine Interface.mem_declares_append.mpr (Or.inl ?_)
      refine Interface.mem_declares_append.mpr (Or.inr ?_)
      rw [declares_ownInterface]
      exact List.mem_map_of_mem hd
  | @inherited c above b type hb habove hname ih =>
    cases fuel with
    | zero => cases h
    | succ fuel =>
      obtain ⟨c', inherited, made, hc', -, -, hinherited, -, rfl⟩ := instantiate_eq_ok h
      cases hc.symm.trans hc'
      obtain ⟨part, hmem, hpart⟩ := exists_instance_of_base hinherited hb
      refine Interface.mem_declares_append.mpr (Or.inl ?_)
      refine Interface.mem_declares_append.mpr (Or.inl ?_)
      exact Interface.mem_declares_concat.mpr ⟨part, hmem, ih habove hpart⟩

theorem Interface.parse_eq_ok {text : String} (h : Interface.parse text = .ok i) :
    ∃ statements components made,
      scan (removeComments text.toList) = .ok (statements, components) ∧
      statements.inits.mapM (fun init => instantiate components (components.length + 1) []
        init.component init.args init.instanceName) = .ok made ∧
      i = ⟨statements.types, statements.relations, statements.outputs⟩ ++ .concat made := by
  unfold Interface.parse at h
  simp only at h
  split at h
  next read hread =>
    cases h
    obtain ⟨⟨statements, components⟩, hscan, hread⟩ := bind_eq_ok.mp hread
    obtain ⟨made, hmade, heq⟩ := bind_eq_ok.mp hread
    cases heq
    exact ⟨statements, components, made, hscan, hmade, rfl⟩
  next => cases h

theorem Interface.parse_of_scan {text : String} {statements : Statements} {made : List Interface}
    (hscan : scan (removeComments text.toList) = .ok (statements, components))
    (hmade : statements.inits.mapM (fun init => instantiate components (components.length + 1) []
      init.component init.args init.instanceName) = .ok made) :
    Interface.parse text =
      .ok (⟨statements.types, statements.relations, statements.outputs⟩ ++ .concat made) := by
  unfold Interface.parse
  simp only
  rw [hscan, ok_bind, hmade, ok_bind]
  rfl

end Program

end TreeFacts
