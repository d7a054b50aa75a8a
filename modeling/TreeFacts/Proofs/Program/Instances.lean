import TreeFacts.Proofs.Program.Closed
import TreeFacts.Proofs.Program.Lexeme
import TreeFacts.Proofs.Program.Resolution

namespace TreeFacts

/-- Changes the name of a type that has a definition of its own. -/
def ColumnType.rename (f : String → String) : ColumnType → ColumnType
  | .named name => .named (f name)
  | type => type

namespace Program

/-- Changes the names of all types, relations and outputs, also where they are referred to. -/
def Interface.rename (f : String → String) (i : Interface) : Interface where
  types := i.types.map (mapTypeDef f (ColumnType.rename f))
  relations := i.relations.map fun r =>
    ⟨f r.name, r.columns.map fun (c, type) => (c, type.rename f)⟩
  outputs := i.outputs.map f

/-- All names that an interface has of its own. -/
def Interface.names (i : Interface) : List String :=
  i.types.map (·.name) ++ i.relations.map (·.name) ++ i.outputs

/-- The names in a component that can stand for a type once its parameters are bound. -/
def Component.typeNames (c : Component) : List String :=
  c.statements.types.map (·.name) ++
    (c.bases.flatMap (·.args) ++ c.statements.mentions).map (·.name)

/-- A name that starts with a qualifier and a point. -/
def Under (qualifier name : String) : Prop := ∃ rest, name = qualify qualifier rest

/-- Puts one qualifier in the place of another where a name starts with that. -/
def requalify (p q name : String) : String :=
  match Text.dropFront? (qualify p "").toList name.toList with
  | some rest => qualify q (String.ofList rest)
  | none => name

variable {p q name : String}

theorem qualify_qualify (outer inner name : String) :
    qualify (qualify outer inner) name = qualify outer (qualify inner name) := by
  simp only [qualify, String.append_assoc]

theorem toList_qualify (qualifier name : String) :
    (qualify qualifier name).toList = (qualify qualifier "").toList ++ name.toList := by
  simp only [qualify, String.toList_append, List.append_assoc, List.append_nil, String.toList_empty]

theorem requalify_qualify (p q name : String) :
    requalify p q (qualify p name) = qualify q name := by
  have hdrop :
      Text.dropFront? (qualify p "").toList (qualify p name).toList = some name.toList := by
    rw [toList_qualify p name, Text.dropFront?_append]
  unfold requalify
  rw [hdrop]
  show qualify q (String.ofList name.toList) = qualify q name
  rw [String.ofList_toList]

theorem under_iff : Under p name ↔ (Text.dropFront? (qualify p "").toList name.toList).isSome := by
  constructor
  · rintro ⟨rest, rfl⟩
    rw [toList_qualify p rest, Text.dropFront?_append]
    rfl
  · intro h
    obtain ⟨rest, hrest⟩ := Option.isSome_iff_exists.mp h
    have hname := Text.dropFront?_eq_some.mp hrest
    refine ⟨String.ofList rest, String.toList_injective ?_⟩
    rw [toList_qualify, String.toList_ofList]
    exact hname

instance (qualifier name : String) : Decidable (Under qualifier name) :=
  decidable_of_iff' _ under_iff

theorem requalify_of_not_under (h : ¬Under p name) : requalify p q name = name := by
  unfold requalify
  cases hdrop : Text.dropFront? (qualify p "").toList name.toList with
  | none => rfl
  | some rest => exact absurd (under_iff.mpr (by rw [hdrop]; rfl)) h

theorem Under.of_qualify {inner : String} (h : Under (qualify p inner) name) : Under p name := by
  obtain ⟨rest, rfl⟩ := h
  exact ⟨qualify inner rest, qualify_qualify p inner rest⟩

/-- No name in any component starts with one of the two qualifiers. -/
def Unqualified (components : List Component) (p q : String) : Prop :=
  ∀ name c, component? components name = some c → ∀ type ∈ c.typeNames,
    ¬Under p type ∧ ¬Under q type

variable {components : List Component} {c : Component} {fuel : Nat} {opened : List String}
  {args : List ColumnType} {P Q : String} {i j : Interface}

section

variable {rename rename' : String → String} {change change' : ColumnType → ColumnType}

theorem mapTypeDef_mapTypeDef (d : TypeDef) :
    mapTypeDef rename' change' (mapTypeDef rename change d) =
      mapTypeDef (fun name => rename' (rename name)) (fun type => change' (change type)) d := by
  cases d with
  | subtype name base => rfl
  | record name fields => simp only [mapTypeDef, List.map_map, Function.comp_def]
  | union name branches => simp only [mapTypeDef, List.map_map, Function.comp_def]

theorem map_fields_congr {fields : FieldTypes}
    (h : ∀ field ∈ fields, change field.2 = change' field.2) :
    (fields.map fun (f, type) => (f, change type)) =
      fields.map fun (f, type) => (f, change' type) := by
  refine List.map_congr_left fun field hfield => ?_
  show (field.1, change field.2) = (field.1, change' field.2)
  rw [h field hfield]

theorem mapTypeDef_congr {d : TypeDef} (hname : rename d.name = rename' d.name)
    (huses : ∀ type ∈ d.uses, change type = change' type) :
    mapTypeDef rename change d = mapTypeDef rename' change' d := by
  cases d with
  | subtype name base =>
    have hbase : change base = change' base := huses base List.mem_cons_self
    simp only [mapTypeDef]
    rw [hbase]
    exact congrArg (TypeDef.subtype · _) hname
  | record name fields =>
    have hfields : ∀ field ∈ fields, change field.2 = change' field.2 :=
      fun field hfield => huses _ (List.mem_map_of_mem hfield)
    simp only [mapTypeDef]
    rw [map_fields_congr hfields]
    exact congrArg (TypeDef.record · _) hname
  | union name branches =>
    have hbranches : ∀ b ∈ branches, ∀ field ∈ b.fields, change field.2 = change' field.2 :=
      fun b hb field hfield =>
        huses _ (List.mem_flatMap.mpr ⟨b, hb, List.mem_map_of_mem hfield⟩)
    have hmap :
        (branches.map fun b =>
          Branch.mk b.name (b.fields.map fun (f, type) => (f, change type))) =
        branches.map fun b =>
          Branch.mk b.name (b.fields.map fun (f, type) => (f, change' type)) := by
      refine List.map_congr_left fun b hb => ?_
      rw [map_fields_congr (hbranches b hb)]
    simp only [mapTypeDef]
    rw [hmap]
    exact congrArg (TypeDef.union · _) hname

end

namespace Interface

theorem rename_append (f : String → String) (i j : Interface) :
    (i ++ j).rename f = i.rename f ++ j.rename f := by
  show Interface.mk _ _ _ = Interface.mk _ _ _
  simp only [Interface.mk.injEq]
  exact ⟨List.map_append, List.map_append, List.map_append⟩

theorem rename_concat (f : String → String) (parts : List Interface) :
    (concat parts).rename f = concat (parts.map (rename f)) := by
  induction parts with
  | nil => rfl
  | cons part parts ih => rw [concat_cons, rename_append, ih, List.map_cons, concat_cons]

theorem mem_names_append {a b : Interface} :
    name ∈ (a ++ b).names ↔ name ∈ a.names ∨ name ∈ b.names := by
  show name ∈ (a.types ++ b.types).map (·.name) ++ (a.relations ++ b.relations).map (·.name) ++
    (a.outputs ++ b.outputs) ↔ _
  simp only [names, List.map_append, List.mem_append]
  tauto

theorem mem_names_concat {parts : List Interface} :
    name ∈ (concat parts).names ↔ ∃ part ∈ parts, name ∈ part.names := by
  induction parts with
  | nil => simp [concat_nil, empty, names]
  | cons part parts ih => rw [concat_cons, mem_names_append, ih, List.exists_mem_cons_iff]

end Interface

namespace Unqualified

theorem requalify_eq (h : Unqualified components p q) (hc : component? components name = some c)
    {type : ColumnType} (htype : type ∈ c.bases.flatMap (·.args) ++ c.statements.mentions) :
    type.rename (requalify p q) = type := by
  cases type with
  | number => rfl
  | symbol => rfl
  | named own =>
    have hmem : own ∈ c.typeNames := List.mem_append_right _ (List.mem_map_of_mem htype)
    have hfree := (h name c hc own hmem).1
    rw [ColumnType.rename, requalify_of_not_under hfree]

theorem not_under_of_defines (h : Unqualified components p q)
    (hc : component? components name = some c) {type : String}
    (hdefines : Defines components c type) : ¬Under p type ∧ ¬Under q type := by
  induction hdefines generalizing name with
  | own hown => exact h _ _ hc _ (List.mem_append_left _ hown)
  | inherited _ habove _ ih => exact ih habove

/-- A change of the qualifier leaves local types local and others foreign. -/
theorem mem_localTypes_iff (h : Unqualified components p q)
    (hc : component? components name = some c) {depth : Nat} {type : String} :
    requalify p q type ∈ localTypes components depth c ↔ type ∈ localTypes components depth c := by
  by_cases hunder : Under p type
  · obtain ⟨rest, rfl⟩ := hunder
    rw [requalify_qualify]
    constructor
    · intro hmem
      exact absurd ⟨rest, rfl⟩ (h.not_under_of_defines hc (defines_of_mem_localTypes hmem)).2
    · intro hmem
      exact absurd ⟨rest, rfl⟩ (h.not_under_of_defines hc (defines_of_mem_localTypes hmem)).1
  · rw [requalify_of_not_under hunder]

end Unqualified

theorem bind_rename (f : String → String) (params : List String) (args : List ColumnType)
    {type : ColumnType} (htype : type.rename f = type) :
    bind (params.zip (args.map (·.rename f))) type = (bind (params.zip args) type).rename f := by
  cases type with
  | number => rfl
  | symbol => rfl
  | named own =>
    have hlookup (bindings : List (String × ColumnType)) :
        (bindings.map fun (param, arg) => (param, arg.rename f)).lookup own =
          (bindings.lookup own).map (·.rename f) :=
      Entries.lookup_map_keys (f := id) (fun _ _ h => h) (ColumnType.rename f) bindings own
    have hzip : (params.zip (args.map (·.rename f))).reverse =
        (params.zip args).reverse.map fun (param, arg) => (param, arg.rename f) := by
      rw [List.zip_map_right, List.map_reverse]
      rfl
    rw [bind, bind, hzip, hlookup]
    cases (params.zip args).reverse.lookup own with
    | none => exact htype.symm
    | some bound => rfl

/-- The types an instance refers to follow its qualifier, and so do its arguments. -/
theorem instanceType_requalify (h : Unqualified components p q)
    (hc : component? components name = some c)
    (hqualify : ∀ name, requalify p q (qualify P name) = qualify Q name)
    {type : ColumnType} (htype : type ∈ c.statements.mentions) :
    instanceType components c (args.map (·.rename (requalify p q))) Q type =
      (instanceType components c args P type).rename (requalify p q) := by
  have hfixed := h.requalify_eq hc (List.mem_append_right _ htype)
  unfold instanceType
  rw [bind_rename _ _ _ hfixed]
  cases hbound : bind (c.params.zip args) type with
  | number => rfl
  | symbol => rfl
  | named bound =>
    have hlocal : requalify p q bound ∈ localTypes components components.length c ↔
        bound ∈ localTypes components components.length c := h.mem_localTypes_iff hc
    by_cases hmem : bound ∈ localTypes components components.length c
    · have hfree := (h.not_under_of_defines hc (defines_of_mem_localTypes hmem)).1
      have hcontains := List.contains_iff_mem.mpr hmem
      simp only [ColumnType.rename, requalify_of_not_under hfree, hcontains, if_true]
      exact congrArg ColumnType.named (hqualify bound).symm
    · have hcontains : (localTypes components components.length c).contains bound = false := by
        simpa using hmem
      have hcontains' :
          (localTypes components components.length c).contains (requalify p q bound) = false := by
        simpa using fun hmoved => hmem (hlocal.mp hmoved)
      simp only [ColumnType.rename, hcontains, hcontains', Bool.false_eq_true, if_false]

theorem ownInterface_requalify (h : Unqualified components p q)
    (hc : component? components name = some c)
    (hqualify : ∀ name, requalify p q (qualify P name) = qualify Q name) :
    ownInterface c Q (instanceType components c (args.map (·.rename (requalify p q))) Q) =
      (ownInterface c P (instanceType components c args P)).rename (requalify p q) := by
  have hchange : ∀ type ∈ c.statements.uses,
      instanceType components c (args.map (·.rename (requalify p q))) Q type =
        (instanceType components c args P type).rename (requalify p q) :=
    fun type huse => instanceType_requalify h hc hqualify (List.mem_append_left _ huse)
  simp only [ownInterface, Interface.rename, Interface.mk.injEq, List.map_map]
  refine ⟨?_, ?_, ?_⟩
  · refine List.map_congr_left fun d hd => ?_
    rw [Function.comp_apply, mapTypeDef_mapTypeDef]
    apply mapTypeDef_congr (hqualify d.name).symm
    intro type huse
    exact hchange type (List.mem_append_left _ (List.mem_flatMap.mpr ⟨d, hd, huse⟩))
  · refine List.map_congr_left fun r hr => ?_
    simp only [Function.comp_apply, hqualify, List.map_map, Relation.mk.injEq, true_and]
    refine List.map_congr_left fun column hcolumn => ?_
    have hcolumn' := hchange column.2 (List.mem_append_right _
      (List.mem_flatMap.mpr ⟨r, hr, List.mem_map_of_mem hcolumn⟩))
    show (column.1, _) = (column.1, _)
    rw [hcolumn']
  · refine List.map_congr_left fun output _ => ?_
    exact (hqualify output).symm

/-- Expansion with the given fuel follows a change of the qualifier in front of an instance. -/
def Requalifies (components : List Component) (p q : String) (fuel : Nat) : Prop :=
  ∀ opened name args P Q, (∀ name, requalify p q (qualify P name) = qualify Q name) →
    instantiate components fuel opened name (args.map (·.rename (requalify p q))) Q =
      (instantiate components fuel opened name args P).map (.rename (requalify p q))

theorem Requalifies.inherit (hinner : Requalifies components p q fuel)
    (h : Unqualified components p q) (hc : component? components name = some c)
    (hqualify : ∀ name, requalify p q (qualify P name) = qualify Q name) :
    inherit components fuel opened c (args.map (·.rename (requalify p q))) Q =
      (inherit components fuel opened c args P).map (List.map (.rename (requalify p q))) := by
  refine mapM_eq_map fun b hb => ?_
  have hargs : b.args.map (bind (c.params.zip (args.map (·.rename (requalify p q))))) =
      (b.args.map (bind (c.params.zip args))).map (·.rename (requalify p q)) := by
    rw [List.map_map]
    refine List.map_congr_left fun type htype => bind_rename _ _ _ ?_
    exact h.requalify_eq hc (List.mem_append_left _ (List.mem_flatMap.mpr ⟨b, hb, htype⟩))
  rw [hargs]
  exact hinner _ _ _ _ _ hqualify

theorem Requalifies.make (hinner : Requalifies components p q fuel)
    (h : Unqualified components p q) (hc : component? components name = some c)
    (hqualify : ∀ name, requalify p q (qualify P name) = qualify Q name) :
    make components fuel opened c (args.map (·.rename (requalify p q))) Q =
      (make components fuel opened c args P).map (List.map (.rename (requalify p q))) := by
  refine mapM_eq_map fun init hinit => ?_
  have hargs : init.args.map (instanceType components c (args.map (·.rename (requalify p q))) Q) =
      (init.args.map (instanceType components c args P)).map (·.rename (requalify p q)) := by
    rw [List.map_map]
    refine List.map_congr_left fun type htype => instanceType_requalify h hc hqualify ?_
    exact List.mem_append_right _ (List.mem_flatMap.mpr ⟨init, hinit, htype⟩)
  rw [hargs]
  refine hinner _ _ _ _ _ fun inside => ?_
  rw [qualify_qualify, hqualify, qualify_qualify]

theorem Requalifies.succ (hinner : Requalifies components p q fuel)
    (h : Unqualified components p q) : Requalifies components p q (fuel + 1) := by
  intro opened name args P Q hqualify
  by_cases hopened : name ∈ opened
  · rw [instantiate_opened hopened, instantiate_opened hopened]
    rfl
  cases hc : component? components name with
  | none =>
    rw [instantiate_unknown hopened hc, instantiate_unknown hopened hc]
    rfl
  | some c =>
    have hlength : (args.map (·.rename (requalify p q))).length = args.length := List.length_map _
    by_cases hargs : c.params.length = args.length
    · rw [instantiate_succ hopened hc hargs, instantiate_succ hopened hc (hargs.trans hlength.symm),
        hinner.inherit h hc hqualify, hinner.make h hc hqualify]
      cases Program.inherit components fuel (name :: opened) c args P with
      | error e => rfl
      | ok inherited =>
        cases Program.make components fuel (name :: opened) c args P with
        | error e => rfl
        | ok made =>
          simp only [map_ok, ok_bind, pure_eq_ok, Interface.rename_append,
            Interface.rename_concat, ownInterface_requalify h hc hqualify]
    · rw [instantiate_arguments hopened hc hargs,
        instantiate_arguments hopened hc (by rwa [hlength]), hlength]
      rfl

theorem requalifies (h : Unqualified components p q) : Requalifies components p q fuel := by
  induction fuel with
  | zero => exact fun _ _ _ _ _ _ => rfl
  | succ fuel ih => exact ih.succ h

theorem under_of_mem_ownInterface {change : ColumnType → ColumnType}
    (h : name ∈ (ownInterface c p change).names) : Under p name := by
  rcases List.mem_append.mp h with hnames | houtput
  · rcases List.mem_append.mp hnames with htype | hrelation
    · simp only [ownInterface, List.map_map, List.mem_map, Function.comp_apply,
        name_mapTypeDef] at htype
      obtain ⟨d, -, rfl⟩ := htype
      exact ⟨d.name, rfl⟩
    · simp only [ownInterface, List.map_map, List.mem_map, Function.comp_apply] at hrelation
      obtain ⟨r, -, rfl⟩ := hrelation
      exact ⟨r.name, rfl⟩
  · obtain ⟨output, -, rfl⟩ := List.mem_map.mp houtput
    exact ⟨output, rfl⟩

theorem under_of_instantiate {component : String}
    (h : instantiate components fuel opened component args p = .ok i) (hname : name ∈ i.names) :
    Under p name := by
  induction fuel generalizing opened component args p i with
  | zero => cases h
  | succ fuel ih =>
    obtain ⟨c, inherited, made, -, -, -, hinherited, hmade, rfl⟩ := instantiate_eq_ok h
    rcases Interface.mem_names_append.mp hname with hname | hname
    · rcases Interface.mem_names_append.mp hname with hname | hname
      · obtain ⟨part, hpart, hname⟩ := Interface.mem_names_concat.mp hname
        obtain ⟨b, -, hb⟩ := exists_of_forall₂ (mapM_eq_ok.mp hinherited) hpart
        exact ih hb hname
      · exact under_of_mem_ownInterface hname
    · obtain ⟨part, hpart, hname⟩ := Interface.mem_names_concat.mp hname
      obtain ⟨init, -, hinit⟩ := exists_of_forall₂ (mapM_eq_ok.mp hmade) hpart
      exact (ih hinit hname).of_qualify

section

variable {α : Type} {recognise : Recogniser α} {cs : List Char}

theorem mem_findAllFrom {n : Nat} {entry : Nat × α} (h : entry ∈ findAllFrom recognise n cs) :
    ∃ front rest, recognise front = some (entry.2, rest) := by
  fun_induction findAllFrom recognise n cs with
  | case1 n => cases h
  | case2 n c cs found rest hfound hless ih =>
    rcases List.mem_cons.mp h with rfl | h
    · exact ⟨c :: cs, rest, hfound⟩
    · exact ih h
  | case3 n c cs found rest hfound hmore ih => exact ih h
  | case4 n c cs hnone ih => exact ih h

theorem notMem_of_name? {rest : List Char} (h : name? cs = some (name, rest)) :
    '.' ∉ name.toList := by
  intro hdot
  have hword : isNameChar '.' = true := (name?_sound h).1.isNameChar hdot
  exact absurd hword (by decide)

theorem notMem_of_init? {init : Init} {rest : List Char} (h : init? cs = some (init, rest)) :
    '.' ∉ init.instanceName.toList := by
  unfold init? at h
  obtain ⟨after, -, h⟩ := Option.bind_eq_some_iff.mp h
  obtain ⟨⟨name, behind⟩, hname, h⟩ := Option.bind_eq_some_iff.mp h
  obtain ⟨body, -, h⟩ := Option.bind_eq_some_iff.mp h
  obtain ⟨⟨component, end'⟩, -, h⟩ := Option.bind_eq_some_iff.mp h
  cases h
  exact notMem_of_name? hname

theorem notMem_of_read {statements : Statements} (h : Statements.read cs = .ok statements)
    {init : Init} (hinit : init ∈ statements.inits) : '.' ∉ init.instanceName.toList := by
  obtain ⟨records, -, h⟩ := bind_eq_ok.mp h
  obtain ⟨unions, -, h⟩ := bind_eq_ok.mp h
  obtain ⟨relations, -, h⟩ := bind_eq_ok.mp h
  cases h
  obtain ⟨entry, hentry, rfl⟩ := List.mem_map.mp hinit
  obtain ⟨front, rest, hfound⟩ := mem_findAllFrom hentry
  exact notMem_of_init? hfound

theorem notMem_of_scan {statements : Statements} (h : scan cs = .ok (statements, components))
    {init : Init} (hinit : init ∈ statements.inits) : '.' ∉ init.instanceName.toList := by
  have hread : ∃ text, Statements.read text = .ok statements := by
    unfold scan at h
    cases hfuel : cs.length with
    | zero =>
      rw [hfuel] at h
      obtain ⟨own, hown, heq⟩ := map_eq_ok.mp h
      cases heq
      exact ⟨cs, hown⟩
    | succ fuel =>
      rw [hfuel] at h
      obtain ⟨nested, -, h⟩ := bind_eq_ok.mp h
      obtain ⟨own, hown, heq⟩ := bind_eq_ok.mp h
      cases heq
      exact ⟨_, hown⟩
  obtain ⟨text, htext⟩ := hread
  exact notMem_of_read htext hinit

end

/-- Qualifiers without points are told apart by any name under them. -/
theorem eq_of_under (hp : '.' ∉ p.toList) (hq : '.' ∉ q.toList) (h : Under p name)
    (h' : Under q name) : p = q := by
  have hcut {qualifier : String} (hdot : '.' ∉ qualifier.toList) (hunder : Under qualifier name) :
      before? '.' name.toList =
        some (qualifier.toList, name.toList.drop (qualifier.toList.length + 1)) := by
    obtain ⟨rest, rfl⟩ := hunder
    have hlist : (qualify qualifier rest).toList = qualifier.toList ++ '.' :: rest.toList := by
      simp [qualify]
    rw [hlist, before?_append hdot]
    simp
  have heq := (hcut hp h).symm.trans (hcut hq h')
  simp only [Option.some.injEq, Prod.mk.injEq] at heq
  exact String.toList_injective heq.1

/-- The instances of a component under two qualifiers are the same but for the qualifier, which all
their names start with. Instances that a program makes under different names have no name in
common. -/
theorem instantiate_isomorphic :
    (∀ components name args p q, Unqualified components p q →
      (∀ arg ∈ args, ¬Under p arg.name ∧ ¬Under q arg.name) →
      instantiate components (components.length + 1) [] name args q =
        (instantiate components (components.length + 1) [] name args p).map
          (.rename (requalify p q))) ∧
    (∀ components name args p i,
      instantiate components (components.length + 1) [] name args p = .ok i →
      ∀ known ∈ i.names, Under p known) ∧
    ∀ (text : String) statements components,
      scan (removeComments text.toList) = .ok (statements, components) →
      ∀ a ∈ statements.inits, ∀ b ∈ statements.inits, a.instanceName ≠ b.instanceName →
      ∀ i j,
        instantiate components (components.length + 1) [] a.component a.args a.instanceName =
          .ok i →
        instantiate components (components.length + 1) [] b.component b.args b.instanceName =
          .ok j →
        ∀ known ∈ i.names, known ∉ j.names := by
  refine ⟨?_, ?_, ?_⟩
  · intro components name args p q hcomponents hargs
    have hfixed : args.map (·.rename (requalify p q)) = args := by
      conv_rhs => rw [← List.map_id args]
      refine List.map_congr_left fun arg harg => ?_
      cases arg with
      | number => rfl
      | symbol => rfl
      | named own =>
        have hfree : ¬Under p own := (hargs _ harg).1
        show ColumnType.named (requalify p q own) = .named own
        rw [requalify_of_not_under hfree]
    conv_lhs => rw [← hfixed]
    exact requalifies hcomponents _ _ _ _ _ (requalify_qualify p q)
  · intro components name args p i hi known hknown
    exact under_of_instantiate hi hknown
  · intro text statements components hscan a ha b hb hne i j hi hj known hknown hshared
    apply hne
    exact eq_of_under (notMem_of_scan hscan ha) (notMem_of_scan hscan hb)
      (under_of_instantiate hi hknown) (under_of_instantiate hj hshared)

def symbolPairText : String :=
  ".comp Cell<T> \x7b .type Ref <: number .decl at(r: Ref, v: T) .output at \x7d\n" ++
  ".comp Pair<T> : Cell<T> \x7b .type Both = [a: Ref, b: T] .init inner = Cell<Both> \x7d\n" ++
  ".init left = Pair<symbol>\n.init right = Pair<symbol>\n"

def pairComponents : List Component :=
  [⟨⟨"Cell", ["T"], []⟩,
      ⟨[.subtype "Ref" .number], [⟨"at", [("r", .named "Ref"), ("v", .named "T")]⟩], ["at"], []⟩⟩,
    ⟨⟨"Pair", ["T"], [⟨"Cell", [.named "T"]⟩]⟩,
      ⟨[.record "Both" [("a", .named "Ref"), ("b", .named "T")]], [], [],
        [⟨"inner", "Cell", [.named "Both"]⟩]⟩⟩]

def pairProgram : Statements :=
  ⟨[], [], [], [⟨"left", "Pair", [.symbol]⟩, ⟨"right", "Pair", [.symbol]⟩]⟩

def pairInstance (name : String) : Interface where
  types := [.subtype (name ++ ".Ref") .number,
    .record (name ++ ".Both") [("a", .named (name ++ ".Ref")), ("b", .symbol)],
    .subtype (name ++ ".inner.Ref") .number]
  relations := [⟨name ++ ".at", [("r", .named (name ++ ".Ref")), ("v", .symbol)]⟩,
    ⟨name ++ ".inner.at", [("r", .named (name ++ ".inner.Ref")), ("v", .named (name ++ ".Both"))]⟩]
  outputs := [name ++ ".at", name ++ ".inner.at"]

theorem instantiate_isomorphic_pair :
    scan (removeComments symbolPairText.toList) = .ok (pairProgram, pairComponents) ∧
      Unqualified pairComponents "left" "right" ∧
      instantiate pairComponents 3 [] "Pair" [.symbol] "left" = .ok (pairInstance "left") ∧
      instantiate pairComponents 3 [] "Pair" [.symbol] "right" = .ok (pairInstance "right") ∧
      (∀ known ∈ (pairInstance "left").names, Under "left" known) ∧
      ∀ known ∈ (pairInstance "left").names, known ∉ (pairInstance "right").names := by
  have hscan : scan (removeComments symbolPairText.toList) = .ok (pairProgram, pairComponents) := by
    decide +kernel
  have hfree : ∀ c ∈ pairComponents, ∀ type ∈ c.typeNames,
      ¬Under "left" type ∧ ¬Under "right" type := by decide +kernel
  have hcomponents : Unqualified pairComponents "left" "right" :=
    fun name c hc => hfree c (component?_eq_some hc).1
  have hleft :
      instantiate pairComponents 3 [] "Pair" [.symbol] "left" = .ok (pairInstance "left") := by
    decide +kernel
  have hrenamed :
      (pairInstance "left").rename (requalify "left" "right") = pairInstance "right" := by
    decide +kernel
  obtain ⟨hiso, hunder, hapart⟩ := instantiate_isomorphic
  have hargs : ∀ arg ∈ [ColumnType.symbol], ¬Under "left" arg.name ∧ ¬Under "right" arg.name := by
    decide +kernel
  have hright :
      instantiate pairComponents 3 [] "Pair" [.symbol] "right" = .ok (pairInstance "right") := by
    have hsame := hiso pairComponents "Pair" [.symbol] "left" "right" hcomponents hargs
    rw [← hrenamed]
    exact hsame.trans (congrArg (Except.map _) hleft)
  refine ⟨hscan, hcomponents, hleft, hright, ?_, ?_⟩
  · exact hunder pairComponents "Pair" [.symbol] "left" _ hleft
  · exact hapart symbolPairText pairProgram pairComponents hscan ⟨"left", "Pair", [.symbol]⟩
      (List.mem_cons_self ..) ⟨"right", "Pair", [.symbol]⟩ (by decide) (by decide) _ _ hleft hright

end Program

end TreeFacts
