import TreeFacts.Proofs.Program.Contents

namespace TreeFacts.Program

/-- The bodies of the components in a text. -/
def bodies (cs : List Char) : List (List Char) := (cuts cs.length cs).1.filterMap Cut.body

/-- No header of a component in a text, and no statement around the components or in their bodies,
begins in a string or reaches one. -/
inductive ClearScan : List Char → Prop
  | intro {cs : List Char} (header : Clear header? .outside cs)
    (statements : ClearStatements (remainder (cuts cs.length cs)))
    (inside : ∀ body ∈ bodies cs, ClearScan body) : ClearScan cs

theorem length_of_mem_bodies {cs body : List Char} (h : body ∈ bodies cs) :
    body.length < cs.length := by
  obtain ⟨cut, hcut, hbody⟩ := List.mem_filterMap.mp h
  exact length_of_mem_cuts hcut hbody

theorem clearScan_iff {cs : List Char} : (Clear header? .outside cs ∧
    ClearStatements (remainder (cuts cs.length cs)) ∧
      ∀ body ∈ (bodies cs).attach, ClearScan body.1) ↔ ClearScan cs := by
  constructor
  · rintro ⟨header, statements, inside⟩
    exact ⟨header, statements, fun body hbody => inside ⟨body, hbody⟩ (List.mem_attach _ _)⟩
  · rintro ⟨header, statements, inside⟩
    exact ⟨header, statements, fun body _ => inside body.1 body.2⟩

instance decidableClearScan (cs : List Char) : Decidable (ClearScan cs) :=
  have (body : { body // body ∈ bodies cs }) : Decidable (ClearScan body.1) :=
    decidableClearScan body.1
  have : Decidable (∀ body ∈ (bodies cs).attach, ClearScan body.1) := List.decidableBAll _ _
  decidable_of_iff _ clearScan_iff
termination_by cs.length
decreasing_by exact length_of_mem_bodies body.2

variable {q : Quoting} {cs : List Char}

theorem hollow_length_le (q : Quoting) (cs : List Char) : (hollow q cs).length ≤ cs.length := by
  induction cs generalizing q with
  | nil => exact Nat.le_refl 0
  | cons c cs ih =>
    have hmore := ih (q.step c)
    by_cases hkept : q = .outside ∨ q.step c = .outside
    · rw [hollow_kept hkept, List.length_cons, List.length_cons]
      omega
    · rw [hollow_dropped hkept, List.length_cons]
      omega

theorem scan_hollow (h : ClearScan cs) (h' : ClearScan (hollow .outside cs)) :
    scan (hollow .outside cs) = scan cs := by
  induction h with
  | @intro cs header statements inside ih =>
    obtain ⟨header', statements', inside'⟩ := h'
    obtain ⟨hcuts, hclosed⟩ := cuts_hollow cs.length header header'
    have hshort : cuts (hollow .outside cs).length (hollow .outside cs) =
        cuts cs.length (hollow .outside cs) :=
      cuts_fuel (Nat.le_refl _) (hollow_length_le .outside cs)
    have haround : remainder (cuts cs.length (hollow .outside cs)) =
        hollow .outside (remainder (cuts cs.length cs)) := by
      rw [hcuts]
      exact remainder_hollow hclosed _
    have hread : Statements.read (remainder (cuts cs.length (hollow .outside cs))) =
        Statements.read (remainder (cuts cs.length cs)) := by
      rw [hshort, haround] at statements'
      rw [haround]
      exact read_hollow statements statements'
    have hcomponents : (cuts cs.length (hollow .outside cs)).1.mapM (Cut.components scan) =
        (cuts cs.length cs).1.mapM (Cut.components scan) := by
      rw [bodies, hshort] at inside'
      rw [hcuts] at inside' ⊢
      rw [List.mapM_map]
      refine mapM_congr fun cut hcut => ?_
      have hmem : cut.hollow ∈ (cuts cs.length cs).1.map Cut.hollow := List.mem_map_of_mem hcut
      simp only [Function.comp, Cut.components, Cut.hollow]
      cases hbody : cut.body with
      | none => rfl
      | some body =>
        have hhollow : cut.hollow.body = some (hollow .outside body) := by
          rw [Cut.hollow, hbody, Option.map_some]
        have hclear := inside' _ (List.mem_filterMap.mpr ⟨_, hmem, hhollow⟩)
        have hsame := ih body (List.mem_filterMap.mpr ⟨cut, hcut, hbody⟩) hclear
        simp only [Option.map_some, hsame]
    rw [scan_eq, scan_eq, hshort, hread, hcomponents]

/-- A program without the comments that stand outside its strings. -/
def uncomment : Quoting → List Char → List Char
  | _, [] => []
  | .outside, '/' :: '*' :: rest =>
    match _h : closeComment? rest with
    | some after => uncomment .outside after
    | none => '/' :: uncomment .outside ('*' :: rest)
  | .outside, '/' :: '/' :: rest => uncomment .outside (rest.dropWhile (· ≠ '\n'))
  | q, c :: rest => c :: uncomment (q.step c) rest
  termination_by _ cs => cs.length
  decreasing_by
    · have := closeComment?_length ‹_›
      simp only [List.length_cons]
      omega
    · simp
    · have := (List.dropWhile_sublist (· ≠ '\n') (l := rest)).length_le
      simp only [List.length_cons]
      omega
    · simp

/-- A program without its comments and without what stands between the quotes of its strings. -/
def masked (text : String) : List Char := hollow .outside (uncomment .outside text.toList)

/-- The comments that are removed from a program are those outside its strings, and nothing that is
read in the program begins in a string or reaches one, nor does without what is in the strings. -/
structure Shielded (text : String) : Prop where
  comments : removeComments text.toList = uncomment .outside text.toList
  clear : ClearScan (removeComments text.toList)
  clearMasked : ClearScan (masked text)

theorem scan_masked {text : String} (h : Shielded text) :
    scan (removeComments text.toList) = scan (masked text) := by
  have hmasked : masked text = hollow .outside (removeComments text.toList) := by
    rw [h.comments, masked]
  rw [hmasked]
  exact (scan_hollow h.clear (hmasked ▸ h.clearMasked)).symm

/-- Programs that differ in nothing but their comments and the contents of their strings have the
same interface, or the same fault. -/
theorem parse_contents {text text' : String} (hsame : masked text = masked text')
    (h : Shielded text) (h' : Shielded text') :
    Interface.parse text = Interface.parse text' := by
  have hscan : scan (removeComments text.toList) = scan (removeComments text'.toList) := by
    rw [scan_masked h, scan_masked h', hsame]
  unfold Interface.parse
  rw [hscan]

instance (text : String) : Decidable (Shielded text) :=
  decidable_of_iff (removeComments text.toList = uncomment .outside text.toList ∧
      ClearScan (removeComments text.toList) ∧ ClearScan (masked text))
    ⟨fun ⟨h₁, h₂, h₃⟩ => ⟨h₁, h₂, h₃⟩, fun ⟨h₁, h₂, h₃⟩ => ⟨h₁, h₂, h₃⟩⟩

def bracesText : String :=
  ".comp Log \x7b .decl line(x: symbol) line(\"a \x7d b\"). \x7d\n.init log = Log // the \"log\"\n"

def slashesText : String :=
  ".comp Log \x7b .decl line(x: symbol) line(\"/ .decl\"). \x7d\n.init log = Log // the \"log\"\n"

theorem parse_contents_log : masked bracesText = masked slashesText ∧ Shielded bracesText ∧
    Shielded slashesText ∧ Interface.parse bracesText = Interface.parse slashesText := by
  have hsame : masked bracesText = masked slashesText := by decide +kernel
  have hbraces : Shielded bracesText := by decide +kernel
  have hslashes : Shielded slashesText := by decide +kernel
  exact ⟨hsame, hbraces, hslashes, parse_contents hsame hbraces hslashes⟩

def srcText (file : String) : String :=
  ".decl src(x: number) .input src(IO=file, filename=\"" ++ file ++ "\") .output src\n"

/-- Two slashes in the name of a file hide the rest of its line, the output among it. -/
theorem parse_slashedFile :
    masked (srcText "a//b.csv") = masked (srcText "a/b.csv") ∧
      Interface.parse (srcText "a//b.csv") = .ok ⟨[], [⟨"src", [("x", .number)]⟩], []⟩ ∧
      Interface.parse (srcText "a/b.csv") = .ok ⟨[], [⟨"src", [("x", .number)]⟩], ["src"]⟩ := by
  decide +kernel

end TreeFacts.Program
