import TreeFacts.Proofs.Program.Literals
import TreeFacts.Proofs.Program.Positions

namespace TreeFacts.Program

/-- No statement that is read in a text begins in a string or reaches one. -/
structure ClearStatements (cs : List Char) : Prop where
  subtype : Clear subtype? .outside cs
  record : Clear record? .outside cs
  union : Clear union? .outside cs
  declaration : Clear declaration? .outside cs
  outputs : Clear outputs? .outside cs
  init : Clear init? .outside cs

instance (cs : List Char) : Decidable (ClearStatements cs) :=
  decidable_of_iff (Clear subtype? .outside cs ∧ Clear record? .outside cs ∧
      Clear union? .outside cs ∧ Clear declaration? .outside cs ∧ Clear outputs? .outside cs ∧
      Clear init? .outside cs)
    ⟨fun ⟨h₁, h₂, h₃, h₄, h₅, h₆⟩ => ⟨h₁, h₂, h₃, h₄, h₅, h₆⟩,
      fun ⟨h₁, h₂, h₃, h₄, h₅, h₆⟩ => ⟨h₁, h₂, h₃, h₄, h₅, h₆⟩⟩

variable {α : Type} {cs : List Char} {recognise : Recogniser α}

theorem findAll_hollow (hs : Steady recognise) (h : Clear recognise .outside cs)
    (h' : Clear recognise .outside (hollow .outside cs)) :
    findAll recognise (hollow .outside cs) = relocate (rank cs) (findAll recognise cs) ∧
      ∀ p ∈ findAll recognise cs, Uncovered cs p.1 := by
  have hmirrored := findAllFrom_hollow hs [] rfl h h'
  exact ⟨hmirrored.found, hmirrored.uncovered⟩

theorem read_hollow (h : ClearStatements cs) (h' : ClearStatements (hollow .outside cs)) :
    Statements.read (hollow .outside cs) = Statements.read cs := by
  obtain ⟨hsubtypes, hsubtype⟩ := findAll_hollow subtype?_stops.steady h.subtype h'.subtype
  obtain ⟨hrecords, hrecord⟩ := findAll_hollow record?_steady h.record h'.record
  obtain ⟨hunions, hunion⟩ := findAll_hollow union?_steady h.union h'.union
  have huncovered : ∀ i ∈ typePositions cs, Uncovered cs i := by
    simp only [typePositions, List.mem_append, List.mem_map]
    rintro _ ((⟨p, hp, rfl⟩ | ⟨p, hp, rfl⟩) | ⟨p, hp, rfl⟩)
    · exact hsubtype p hp
    · exact hrecord p hp
    · exact hunion p hp
  exact Relocated.read_eq
    { subtype := hsubtypes
      record := hrecords
      union := hunions
      declaration := (findAll_hollow declaration?_steady h.declaration h'.declaration).1
      outputs := (findAll_hollow outputs?_steady h.outputs h'.outputs).1
      init := (findAll_hollow init?_steady h.init h'.init).1
      order := fun i _ j hj => rank_le_iff (huncovered j hj) }

variable {q : Quoting} {before inner body rest : List Char} {header : Header}

theorem firstHeader?_hollow (h : Clear header? q cs)
    (h' : Clear header? q.unescaped (hollow q cs)) :
    firstHeader? (hollow q cs) =
      (firstHeader? cs).map fun p => (hollow q p.1, p.2.1, hollow .outside p.2.2) := by
  induction cs generalizing q with
  | nil => rfl
  | cons c cs ih =>
    have hmore := ih h.2 (clear_hollow_tail h')
    rcases recognise_cases header?_steady h h' with ⟨hkept, hheader⟩ | ⟨hdropped, hnone⟩
    · rw [hollow_kept hkept, firstHeader?, firstHeader?, hheader]
      cases header? (c :: cs) with
      | some p => rfl
      | none =>
        simp only [Option.map_none]
        rw [hmore, Option.map_map, Option.map_map]
        congr 1
        funext p
        simp only [Function.comp, hollow_kept hkept]
    · rw [hollow_dropped hdropped, firstHeader?, hnone, hmore]
      simp only [Option.map_map]
      congr 1
      funext p
      simp only [Function.comp, hollow_dropped hdropped]

theorem firstHeader?_clear (h : Clear header? q cs)
    (hfirst : firstHeader? cs = some (before, header, inner)) :
    q.after before = .outside ∧ Clear header? .outside inner := by
  obtain ⟨found, rfl, hfound⟩ := firstHeader?_eq_some hfirst
  obtain ⟨front, rfl⟩ := header?_steady.suffix hfound
  have hclear := clear_append h
  have hne : front ++ inner ≠ [] := by
    intro hnil
    rw [hnil] at hfound
    cases hfound
  obtain ⟨houtside, hquote⟩ := hclear.recognised hne hfound
  rw [houtside] at hclear
  have hinner := clear_append hclear
  rw [outside_after hquote] at hinner
  exact ⟨houtside, hinner⟩

theorem body?_hollow (q : Quoting) (depth : Nat) (cs : List Char) :
    body? q.unescaped depth (hollow q cs) =
      (body? q depth cs).map fun p => (hollow q p.1, hollow .outside p.2) := by
  induction cs generalizing q depth with
  | nil => cases q <;> rfl
  | cons c cs ih =>
    by_cases hkept : q = .outside ∨ q.step c = .outside
    · have hsame : q.unescaped = q := by
        cases q with
        | outside | inside => rfl
        | escaped => simp [Quoting.step] at hkept
      have hmore := ih (q.step c)
      rw [← unescaped_step_kept hkept, hsame] at hmore
      rw [hsame, hollow_kept hkept]
      rcases body?_cons q depth c with ⟨rfl, rfl, hclose⟩ | ⟨depth', -, hnext⟩
      · rw [hclose, hclose]
        rfl
      · rw [hnext, hnext, hmore, Option.map_map, Option.map_map]
        congr 1
        funext p
        simp only [Function.comp, hollow_kept hkept]
    · rw [hollow_dropped hkept, ← unescaped_step_dropped hkept, ih]
      rcases body?_cons q depth c with ⟨hq, -⟩ | ⟨depth', hdepth, hnext⟩
      · exact absurd (Or.inl hq) hkept
      · rw [hnext, hdepth fun hq => hkept (Or.inl hq), Option.map_map]
        congr 1
        funext p
        simp only [Function.comp, hollow_dropped hkept]

/-- A component without what is in the strings of its text. -/
def Cut.hollow (cut : Cut) : Cut :=
  ⟨Program.hollow .outside cut.before, cut.header, cut.body.map (Program.hollow .outside)⟩

theorem cuts_hollow (fuel : Nat) (h : Clear header? .outside cs)
    (h' : Clear header? .outside (hollow .outside cs)) :
    cuts fuel (hollow .outside cs) =
        ((cuts fuel cs).1.map Cut.hollow, hollow .outside (cuts fuel cs).2) ∧
      ∀ cut ∈ (cuts fuel cs).1, Quoting.outside.after cut.before = .outside := by
  have hrest {cs before inner body rest : List Char} {header : Header}
      (h : Clear header? .outside cs)
      (hheader : firstHeader? cs = some (before, header, inner))
      (hbody : body? .outside 1 inner = some (body, rest)) : Clear header? .outside rest := by
    have hinner := (firstHeader?_clear h hheader).2
    obtain ⟨rfl, houtside⟩ := body?_eq_some hbody
    have hclose := clear_append hinner
    rw [houtside] at hclose
    exact hclose.2
  induction fuel generalizing cs with
  | zero => simp [cuts]
  | succ fuel ih =>
    have hfirst := firstHeader?_hollow h h'
    rw [cuts, cuts, hfirst]
    cases hheader : firstHeader? cs with
    | none => simp
    | some p =>
      obtain ⟨before, header, inner⟩ := p
      have hbefore := (firstHeader?_clear h hheader).1
      have hinner := body?_hollow .outside 1 inner
      rw [hheader] at hfirst
      simp only [Option.map_some, Quoting.unescaped] at hfirst hinner ⊢
      rw [hinner]
      cases hbody : body? .outside 1 inner with
      | none => simp [Cut.hollow, hollow, hbefore]
      | some p =>
        obtain ⟨body, rest⟩ := p
        rw [hbody] at hinner
        obtain ⟨hmore, houtside⟩ := ih (hrest h hheader hbody) (hrest h' hfirst hinner)
        simp only [Option.map_some, hmore]
        refine ⟨rfl, fun cut hcut => ?_⟩
        rcases List.mem_cons.mp hcut with rfl | hcut
        · exact hbefore
        · exact houtside cut hcut

theorem remainder_hollow {cuts : List Cut}
    (h : ∀ cut ∈ cuts, Quoting.outside.after cut.before = .outside) (rest : List Char) :
    remainder (cuts.map Cut.hollow, hollow .outside rest) =
      hollow .outside (remainder (cuts, rest)) := by
  induction cuts with
  | nil => rfl
  | cons cut cuts ih =>
    obtain ⟨hcut, hmore⟩ := List.forall_mem_cons.mp h
    have hrest := ih hmore
    have hfirst (cut : Cut) (cuts : List Cut) (rest : List Char) : remainder (cut :: cuts, rest) =
        cut.before ++ '\n' :: remainder (cuts, rest) := by simp [remainder]
    rw [List.map_cons, hfirst, hfirst, hrest, hollow_append, hcut, hollow_kept (Or.inl rfl),
      outside_step (by decide)]
    rfl

end TreeFacts.Program
