import TreeFacts.Proofs.Program.Cutting
import TreeFacts.Proofs.Program.Positions
import TreeFacts.Proofs.Program.Resolution

namespace TreeFacts.Program

/-- The components that a text declares itself, by their headers and, where a brace is closed, their
bodies. -/
def declarations (cs : List Char) : List (Header × Option (List Char)) :=
  (cuts cs.length cs).1.map fun cut => (cut.header, cut.body)

/-- A text declares a component itself, and others in the component's body. -/
structure Declares (cs : List Char) (c : Component) (body : List Char) (nested : List Component) :
    Prop where
  declared : (c.toHeader, some body) ∈ declarations cs
  scanned : scan body = .ok (c.statements, nested)

/-- A text declares a component at some depth. -/
inductive Holds : List Char → Component → List Char → Prop
  | here {cs body : List Char} {c : Component} {nested : List Component}
    (h : Declares cs c body nested) : Holds cs c body
  | inside {cs around body : List Char} {c d : Component} {nested : List Component}
    (h : Declares cs d around nested) (hinside : Holds around c body) : Holds cs c body

/-- A component is added to a text: all other components, and the statements around them, stay. -/
structure Adds (cs cs' : List Char) (c : Component) (nested : List Component) : Prop where
  declarations : ∃ front back body, declarations cs = front ++ back ∧
    declarations cs' = front ++ (c.toHeader, some body) :: back ∧
    scan body = .ok (c.statements, nested)
  statements : Statements.read (remainder (cuts cs'.length cs')) =
    Statements.read (remainder (cuts cs.length cs))

/-- A component is named in a program: in an instance or as a base. -/
def Refers (statements : Statements) (components : List Component) (name : String) : Prop :=
  name ∈ statements.inits.map (·.component) ∨ ∃ c ∈ components, name ∈ c.references

instance (statements : Statements) (components : List Component) (name : String) :
    Decidable (Refers statements components name) := inferInstanceAs (Decidable (_ ∨ _))

/-- No component that is declared later has the name of this one. -/
def Latest (components : List Component) (c : Component) : Prop :=
  ∀ front back, components = front ++ c :: back → c ∉ back → ∀ d ∈ back, d.name ≠ c.name

variable {cs cs' body inner : List Char} {statements : Statements} {c d : Component}
  {components nested added front back : List Component} {name : String}

/-- The components that a declaration is read as, those nested in it first. -/
def componentsOf : Header × Option (List Char) → Except ParseFault (List Component)
  | (header, none) => .error (.unterminatedComponent header.name)
  | (header, some body) => do
    let (statements, nested) ← scan body
    return nested ++ [{ header with statements }]

theorem scan_declarations (cs : List Char) : scan cs = do
    let components ← (declarations cs).mapM componentsOf
    return (← Statements.read (remainder (cuts cs.length cs)), components.flatten) := by
  have hcomponents : (declarations cs).mapM componentsOf =
      (cuts cs.length cs).1.mapM (Cut.components scan) := by
    rw [declarations, List.mapM_map]
    refine mapM_congr fun cut _ => ?_
    simp only [Function.comp, Cut.components]
    cases cut.body <;> rfl
  rw [scan_eq, hcomponents]

theorem componentsOf_eq (h : scan body = .ok (c.statements, nested)) :
    componentsOf (c.toHeader, some body) = .ok (nested ++ [c]) := by
  rw [componentsOf, h]
  rfl

theorem Declares.mem (h : Declares cs c body nested)
    (hscan : scan cs = .ok (statements, components)) (hd : d ∈ nested ++ [c]) :
    d ∈ components := by
  rw [scan_declarations] at hscan
  obtain ⟨parts, hparts, hscan⟩ := bind_eq_ok.mp hscan
  obtain ⟨around, -, heq⟩ := bind_eq_ok.mp hscan
  cases heq
  obtain ⟨part, hpart, hread⟩ := exists_of_forall₂ (mapM_eq_ok.mp hparts).flip h.declared
  rw [componentsOf_eq h.scanned] at hread
  cases hread
  exact List.mem_flatten.mpr ⟨_, hpart, hd⟩

theorem Holds.mem (h : Holds cs c body) (hscan : scan cs = .ok (statements, components)) :
    ∃ nested, scan body = .ok (c.statements, nested) ∧ ∀ d ∈ nested ++ [c], d ∈ components := by
  induction h generalizing statements components with
  | here h => exact ⟨_, h.scanned, fun d hd => h.mem hscan hd⟩
  | inside h _ ih =>
    obtain ⟨nested, hbody, hmem⟩ := ih h.scanned
    exact ⟨nested, hbody, fun d hd => h.mem hscan (List.mem_append_left _ (hmem d hd))⟩

theorem component?_eq_iff (hc : c ∈ components) :
    component? components c.name = some c ↔ Latest components c := by
  constructor
  · rintro hfound front back rfl hback d hd hname
    have hlater : back.reverse.find? (·.name == c.name) ≠ none := fun hnone =>
      List.find?_eq_none.mp hnone d (List.mem_reverse.mpr hd) (by simpa using hname)
    obtain ⟨found, hsome⟩ := Option.ne_none_iff_exists'.mp hlater
    have hmem := List.mem_reverse.mp (List.mem_of_find?_eq_some hsome)
    rw [component?, List.reverse_append, List.find?_append, List.reverse_cons, List.find?_append,
      hsome] at hfound
    cases hfound
    exact hback hmem
  · intro hlatest
    obtain ⟨back, front, hsplit, hback⟩ := List.eq_append_cons_of_mem (List.mem_reverse.mpr hc)
    have hcomponents : components = front.reverse ++ c :: back.reverse := by
      rw [← List.reverse_reverse components, hsplit]
      simp
    have hlater := hlatest _ _ hcomponents (by simpa using hback)
    have hnone : back.find? (·.name == c.name) = none :=
      List.find?_eq_none.mpr fun d hd => by simpa using hlater d (List.mem_reverse.mpr hd)
    rw [component?, hsplit, List.find?_append, hnone]
    simp

/-- An instance has in it what each of the instances inside it adds of its component's own. -/
theorem exists_own_of_init {fuel : Nat} {opened : List String} {args : List ColumnType}
    {qualifier : String} {i : Interface} {init : Init}
    (h : instantiate components fuel opened c.name args qualifier = .ok i)
    (hc : component? components c.name = some c) (hinit : init ∈ c.statements.inits)
    (hd : component? components init.component = some d) :
    ∃ before after, i = before ++ ownInterface d (qualify qualifier init.instanceName)
      (instanceType components d (init.args.map (instanceType components c args qualifier))
        (qualify qualifier init.instanceName)) ++ after := by
  cases fuel with
  | zero => cases h
  | succ fuel =>
    obtain ⟨c', inherited, made, hc', -, -, -, hmade, rfl⟩ := instantiate_eq_ok h
    cases hc.symm.trans hc'
    obtain ⟨part, hpart, hinstance⟩ := exists_of_forall₂ (mapM_eq_ok.mp hmade).flip hinit
    obtain ⟨front, back, rfl⟩ := List.append_of_mem hpart
    cases fuel with
    | zero => cases hinstance
    | succ fuel =>
      obtain ⟨d', above, inside, hd', -, -, -, -, rfl⟩ := instantiate_eq_ok hinstance
      cases hd.symm.trans hd'
      let own := ownInterface c qualifier (instanceType components c args qualifier)
      refine ⟨.concat inherited ++ own ++ .concat front ++ .concat above,
        .concat inside ++ .concat back, ?_⟩
      rw [Interface.concat_append, Interface.concat_cons]
      simp only [Interface.append_assoc, own]

theorem component?_append (h : ∀ d ∈ added, d.name ≠ name) :
    component? (front ++ added ++ back) name = component? (front ++ back) name := by
  have hadded : added.reverse.find? (·.name == name) = none :=
    List.find?_eq_none.mpr fun d hd => by simpa using h d (List.mem_reverse.mp hd)
  unfold component?
  simp only [List.reverse_append, List.find?_append, hadded, Option.none_or]

theorem Adds.scan (h : Adds cs cs' c nested) :
    (∃ fault, scan cs = .error fault ∧ scan cs' = .error fault) ∨
      ∃ statements front back, scan cs = .ok (statements, front ++ back) ∧
        scan cs' = .ok (statements, front ++ (nested ++ [c]) ++ back) := by
  obtain ⟨front, back, body, hdeclarations, hdeclarations', hbody⟩ := h.declarations
  rw [scan_declarations, scan_declarations, hdeclarations, hdeclarations', h.statements,
    List.mapM_append, List.mapM_append, List.mapM_cons, componentsOf_eq hbody]
  cases front.mapM componentsOf with
  | error fault => exact Or.inl ⟨fault, rfl, rfl⟩
  | ok first =>
    cases back.mapM componentsOf with
    | error fault => exact Or.inl ⟨fault, rfl, rfl⟩
    | ok last =>
      cases Statements.read (remainder (cuts cs.length cs)) with
      | error fault => exact Or.inl ⟨fault, rfl, rfl⟩
      | ok statements =>
        refine Or.inr ⟨statements, first.flatten, last.flatten, ?_, ?_⟩
        · simp
        · simp

/-- A component can be added in front of any text. -/
theorem adds_front (hheader : header? cs' = some (c.toHeader, body ++ '\x7d' :: cs))
    (hbody : body? .outside 1 (body ++ '\x7d' :: cs) = some (body, cs))
    (hscan : Program.scan body = .ok (c.statements, nested)) : Adds cs cs' c nested := by
  have hfirst : firstHeader? cs' = some ([], c.toHeader, body ++ '\x7d' :: cs) := by
    cases cs' with
    | nil => cases hheader
    | cons c cs => rw [firstHeader?, hheader]
  have hcuts : cuts cs'.length cs' =
      (⟨[], c.toHeader, some body⟩ :: (cuts cs.length cs).1, (cuts cs.length cs).2) :=
    cuts_cons hfirst hbody
  refine ⟨⟨[], declarations cs, body, rfl, ?_, hscan⟩, ?_⟩
  · simp only [declarations, hcuts, List.map_cons, List.nil_append]
  · rw [hcuts]
    exact read_break (remainder (cuts cs.length cs))

theorem shared_of_not_refers (h : ∀ d ∈ added, ¬Refers statements (front ++ back) d.name) :
    Shared (front ++ back) (front ++ added ++ back) fun name => ∀ d ∈ added, d.name ≠ name where
  lookup hname := (component?_append hname).symm
  references _ hc _ hreference d hd heq :=
    h d hd (Or.inr ⟨_, (component?_eq_some hc).1, heq ▸ hreference⟩)

theorem parse_adds {text text' : String}
    (hadds : Adds (removeComments text.toList) (removeComments text'.toList) c nested)
    (hrefers : ∀ statements components,
      scan (removeComments text.toList) = .ok (statements, components) →
        ∀ d ∈ nested ++ [c], ¬Refers statements components d.name) :
    Interface.parse text' = Interface.parse text := by
  unfold Interface.parse
  rcases hadds.scan with ⟨fault, herror, herror'⟩ | ⟨statements, front, back, hscan, hscan'⟩
  · rw [herror, herror']
  · have hfree := hrefers statements _ hscan
    have hshared := shared_of_not_refers hfree
    have hmade : (statements.inits.mapM fun i => instantiate (front ++ (nested ++ [c]) ++ back)
          ((front ++ (nested ++ [c]) ++ back).length + 1) [] i.component i.args i.instanceName) =
        statements.inits.mapM fun i => instantiate (front ++ back) ((front ++ back).length + 1) []
          i.component i.args i.instanceName := by
      refine mapM_congr fun i hi => (hshared.instantiate_eq (fun d hd heq => ?_) ?_ ?_ ?_ ?_).symm
      · exact hfree d hd (Or.inl (heq ▸ List.mem_map_of_mem hi))
      · rw [unopened_nil]; exact Nat.lt_succ_self _
      · exact Nat.le_refl _
      · rw [unopened_nil]; exact Nat.lt_succ_self _
      · exact Nat.le_refl _
    rw [hscan, hscan', ok_bind, ok_bind]
    simp only [hmade]

/-- An instance inside a component, of a component that is declared beside it, is made of that one
just when no later component of the program has its name. A component that is added does not matter
where neither its name nor that of one nested in it is used. -/
theorem parse_nesting (text : String) :
    (∀ statements components c body d inner nested init,
      scan (removeComments text.toList) = .ok (statements, components) →
      Holds (removeComments text.toList) c body → Declares body d inner nested →
      init ∈ c.statements.inits → init.component = d.name →
      (component? components init.component = some d ↔ Latest components d) ∧
        (Latest components d → ∀ fuel opened args qualifier i,
          component? components c.name = some c →
          instantiate components fuel opened c.name args qualifier = .ok i →
          ∃ before after, i = before ++ ownInterface d (qualify qualifier init.instanceName)
            (instanceType components d (init.args.map (instanceType components c args qualifier))
              (qualify qualifier init.instanceName)) ++ after)) ∧
      ∀ text' c nested,
        Adds (removeComments text.toList) (removeComments text'.toList) c nested →
        (∀ statements components,
          scan (removeComments text.toList) = .ok (statements, components) →
          ∀ d ∈ nested ++ [c], ¬Refers statements components d.name) →
        Interface.parse text' = Interface.parse text := by
  refine ⟨?_, fun text' c nested hadds hrefers => parse_adds hadds hrefers⟩
  intro statements components c body d inner nested init hscan hholds hdeclares hinit hname
  obtain ⟨among, hbody, hmem⟩ := hholds.mem hscan
  have hd : d ∈ among := hdeclares.mem hbody (List.mem_append_right _ List.mem_cons_self)
  have hiff := component?_eq_iff (hmem d (List.mem_append_left _ hd))
  rw [← hname] at hiff
  refine ⟨hiff, fun hlatest fuel opened args qualifier i hc h => ?_⟩
  exact exists_own_of_init h hc hinit (hiff.mpr hlatest)

/-- What stands in a component that has one in it, and makes an instance of that. -/
def pairBody (inner relation : String) : String :=
  " .comp " ++ inner ++ " \x7b .decl " ++ relation ++ "(a: id) \x7d .init in = " ++ inner ++ " "

def pairText (outer inner relation : String) : String :=
  ".comp " ++ outer ++ " \x7b" ++ pairBody inner relation ++ "\x7d"

def innerComponent (name relation : String) : Component where
  name := name
  params := []
  bases := []
  statements := ⟨[], [⟨relation, [("a", .named "id")]⟩], [], []⟩

def outerComponent (name inner : String) : Component where
  name := name
  params := []
  bases := []
  statements := ⟨[], [], [], [⟨"in", inner, []⟩]⟩

def callsText : String := pairText "Calls" "Graph" "edge" ++ "\n.init calls = Calls\n"

def callsStatements : Statements := ⟨[], [], [], [⟨"calls", "Calls", []⟩]⟩

def callsComponents : List Component :=
  [innerComponent "Graph" "edge", outerComponent "Calls" "Graph"]

/-- The program with another component that has one of another name in it. -/
def treesText : String := pairText "Types" "Tree" "above" ++ callsText

theorem scan_callsText :
    scan (removeComments callsText.toList) = .ok (callsStatements, callsComponents) := by
  decide +kernel

theorem adds_treesText : Adds (removeComments callsText.toList) (removeComments treesText.toList)
    (outerComponent "Types" "Tree") [innerComponent "Tree" "above"] := by
  have hbody : body? .outside 1 ((pairBody "Tree" "above").toList ++
      '\x7d' :: removeComments callsText.toList) =
        some ((pairBody "Tree" "above").toList, removeComments callsText.toList) := by
    decide +kernel
  exact adds_front (by decide +kernel) hbody (by decide +kernel)

theorem parse_nesting_calls :
    scan (removeComments callsText.toList) = .ok (callsStatements, callsComponents) ∧
      component? callsComponents "Graph" = some (innerComponent "Graph" "edge") ∧
      Interface.parse treesText = Interface.parse callsText := by
  have hcalls : Declares (removeComments callsText.toList) (outerComponent "Calls" "Graph")
      (pairBody "Graph" "edge").toList [innerComponent "Graph" "edge"] :=
    ⟨by decide +kernel, by decide +kernel⟩
  have hgraph : Declares (pairBody "Graph" "edge").toList (innerComponent "Graph" "edge")
      " .decl edge(a: id) ".toList [] := ⟨by decide +kernel, by decide +kernel⟩
  have hlatest : Latest callsComponents (innerComponent "Graph" "edge") := by
    intro front back heq _ d hd
    rcases front with _ | ⟨c, _ | ⟨c', front⟩⟩
    · obtain ⟨-, rfl⟩ := List.cons.inj heq
      rw [List.mem_singleton.mp hd]
      decide
    · exact absurd (List.cons.inj (List.cons.inj heq).2).1 (by decide)
    · simp [callsComponents] at heq
  obtain ⟨hresolves, hadds⟩ := parse_nesting callsText
  have hfound := (hresolves _ _ _ _ _ _ _ ⟨"in", "Graph", []⟩ scan_callsText (.here hcalls) hgraph
    (by decide) rfl).1.mpr hlatest
  refine ⟨scan_callsText, hfound, hadds _ _ _ adds_treesText fun statements components hscan => ?_⟩
  cases scan_callsText.symm.trans hscan
  decide

/-- The program with another component that has one of the same name in it. -/
def graphsText : String :=
  pairText "Calls" "Graph" "edge" ++ pairText "Types" "Graph" "above" ++ "\n.init calls = Calls\n"

/-- A component that is never used takes the place of one that has its name. -/
theorem parse_takenComponent :
    Adds (removeComments callsText.toList) (removeComments graphsText.toList)
        (outerComponent "Types" "Graph") [innerComponent "Graph" "above"] ∧
      ¬Refers callsStatements callsComponents "Types" ∧
      Interface.parse callsText = .ok ⟨[], [⟨"calls.in.edge", [("a", .named "id")]⟩], []⟩ ∧
      Interface.parse graphsText = .ok ⟨[], [⟨"calls.in.above", [("a", .named "id")]⟩], []⟩ := by
  have hmade : instantiate callsComponents 3 [] "Calls" [] "calls" =
      .ok ⟨[], [⟨"calls.in.edge", [("a", .named "id")]⟩], []⟩ := by decide +kernel
  refine ⟨⟨⟨declarations (removeComments callsText.toList), [], (pairBody "Graph" "above").toList,
    (List.append_nil _).symm, ?_, ?_⟩, ?_⟩, by decide, ?_, ?_⟩
  · decide +kernel
  · decide +kernel
  · decide +kernel
  · exact Interface.parse_of_scan scan_callsText (mapM_eq_ok.mpr (.cons hmade .nil))
  · decide +kernel

end TreeFacts.Program
