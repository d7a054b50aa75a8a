import TreeFacts.Proofs.Program.Extent

namespace TreeFacts.Program

variable {text front before stem inner body rest : List Char} {header : Header}

section

variable {α β : Type}

theorem run_slice {o : Option α} {a : α} {f : α → Slicing β} (h : o = some a) :
    ((liftM o : Slicing α) >>= f).run = (f a).run := by
  rw [h, ExceptT.run_bind]
  rfl

theorem ends_bind {run : Nat → Slicing α} {next : Nat → α → Slicing β}
    {outcome : Except ParseFault α} {g : α → Except ParseFault β}
    (h : Ends (fun steps => (run steps).run) outcome)
    (hnext : ∀ a, outcome = .ok a → Ends (fun steps => (next steps a).run) (g a)) :
    Ends (fun steps => (run steps >>= next steps).run) (outcome >>= g) := by
  simp only [ExceptT.run_bind]
  refine h.bind ?_
  cases outcome with
  | error fault => exact ends_const rfl
  | ok a => exact hnext a rfl

end

theorem cutFrom_last (steps : Nat) (h : firstHeader? rest = none) :
    (cutFrom (steps + 1) (front ++ rest) (Text.bytes front).length).run =
      some (.ok ⟨[], [], rest, []⟩) := by
  rw [cutFrom, run_slice (Text.sliceFrom?_append front rest)]
  simp only [h]
  rfl

/-- The brace that ends a header is the last byte of what is found in front of the body. -/
theorem opening_eq (front before stem inner : List Char) :
    (Text.bytes front).length + ((Text.bytes (before ++ (stem ++ '\x7b' :: inner))).length -
      (Text.bytes inner).length) - 1 = (Text.bytes (front ++ before ++ stem)).length := by
  have hbrace : (String.utf8EncodeChar '\x7b').length = 1 := rfl
  simp only [Text.bytes_append, Text.bytes_cons, List.length_append, hbrace]
  omega

theorem bytesFrom?_opening (front before stem inner : List Char) :
    Text.bytesFrom? (front ++ (before ++ (stem ++ '\x7b' :: inner)))
      (Text.bytes (front ++ before ++ stem)).length = some (Text.bytes ('\x7b' :: inner)) := by
  have htext : front ++ (before ++ (stem ++ '\x7b' :: inner)) =
      front ++ before ++ stem ++ '\x7b' :: inner := by simp
  rw [htext]
  exact Text.bytesFrom?_append _ _

theorem bytesFrom?_joined (front before stem body rest : List Char) :
    Text.bytesFrom? (joined front before stem body rest)
      (Text.bytes (front ++ before ++ stem)).length =
        some (Text.bytes ('\x7b' :: (body ++ '\x7d' :: rest))) :=
  bytesFrom?_opening front before stem _

theorem closingFrom_opening {offset : Nat} :
    closingFrom .outside 0 offset (Text.bytes ('\x7b' :: inner)) =
      (body? .outside 1 inner).map fun p => offset + 1 + (Text.bytes p.1).length :=
  closingFrom_bytes

theorem cutFrom_unclosed (steps : Nat)
    (h : firstHeader? (before ++ (stem ++ '\x7b' :: inner)) = some (before, header, inner))
    (hnone : body? .outside 1 inner = none) :
    (cutFrom (steps + 1) (front ++ (before ++ (stem ++ '\x7b' :: inner)))
      (Text.bytes front).length).run =
      some (.error (.unterminatedComponent header.name)) := by
  rw [cutFrom, run_slice (Text.sliceFrom?_append front _)]
  simp only [h, opening_eq]
  rw [run_slice (bytesFrom?_opening front before stem inner), closingFrom_opening, hnone]
  rfl

/-- A component in front of what is cut out behind it. -/
def Cutting.after (header : Header) (s : Extent) (before : List Char)
    (found : (Statements × List Component) × Trace) (more : Cutting) : Cutting where
  components := found.1.2 ++ [{ header with statements := found.1.1 }] ++ more.components
  spans := s :: more.spans
  around := before ++ '\n' :: more.around
  calls := found.2 :: more.calls

/-- Where the brace of a header is closed every slice is taken as it should be, and the loop goes on
behind the closing brace. -/
theorem cutFrom_cons (steps : Nat)
    (h : firstHeader? (before ++ (stem ++ '\x7b' :: (body ++ '\x7d' :: rest))) =
      some (before, header, body ++ '\x7d' :: rest)) (hbody : Balanced body) :
    (cutFrom (steps + 1) (joined front before stem body rest) (Text.bytes front).length).run =
      (do
        let found ← scanOffsets steps body
        let more ← cutFrom steps (joined front before stem body rest)
          (Text.bytes (upTo front before stem body)).length
        return more.after header (extentOf front before stem body) before found :
          Slicing Cutting).run := by
  have hclosed : body? .outside 1 (body ++ '\x7d' :: rest) = some (body, rest) :=
    body?_eq_some_iff.mpr ⟨rfl, hbody⟩
  have hclosing : (Text.bytes (front ++ before ++ stem)).length + 1 + (Text.bytes body).length =
      (extentOf front before stem body).closing := by
    have hbrace := Text.length_bytes_concat (c := '\x7b') rfl (front ++ before ++ stem)
    rw [← hbrace, extentOf, Text.bytes_append (front ++ before ++ stem ++ ['\x7b']),
      List.length_append]
  have hstart : (Text.bytes front).length + (Text.bytes before).length =
      (extentOf front before stem body).start := by
    rw [extentOf, Text.bytes_append, List.length_append]
  rw [cutFrom, run_slice (sliceFrom?_joined front before stem body rest)]
  simp only [h, opening_eq]
  rw [run_slice (bytesFrom?_joined front before stem body rest), closingFrom_opening, hclosed]
  simp only [Option.map_some, hclosing, hstart]
  have hslice : Text.slice? (joined front before stem body rest)
      ((Text.bytes (front ++ before ++ stem)).length + 1)
      (extentOf front before stem body).closing = some body :=
    slice?_body front before stem body rest
  rw [run_slice hslice]
  rw [ExceptT.run_bind, ExceptT.run_bind]
  congr 1
  funext outcome
  cases outcome with
  | error fault => rfl
  | ok found =>
    rw [← closing_succ]
    exact run_slice (slice?_piece front before stem body rest)

/-- What a call of the scan records where it does not fail: exact cuts of the text it is given, and
the statements of what is left around them. -/
structure Trace.Records (text : List Char) (statements : Statements) (trace : Trace) : Prop where
  given : trace.text = text
  exact : Exact text 0 trace.spans trace.around trace.calls
  read : Statements.read trace.around = .ok statements

/-- What the scan at byte offsets comes to: what the scan character by character comes to, with a
record of the cuts, and a fault wherever a header is met whose brace has no closing brace. -/
structure ScanOutcome (text : List Char)
    (outcome : Except ParseFault ((Statements × List Component) × Trace)) : Prop where
  ends : Ends (fun steps => (scanOffsets steps text).run) outcome
  same : outcome.map (·.1) = scan text
  records : ∀ found, outcome = .ok found → found.2.Records text found.1.1
  unclosed : ∀ inner, Meets text inner →
    (∀ body rest, Balanced body → inner ≠ body ++ '\x7d' :: rest) → ∃ fault, outcome = .error fault

/-- What the loop comes to behind the given text: the components that are cut out character by
character, and exact cuts. -/
structure CutOutcome (front rest : List Char) (outcome : Except ParseFault Cutting) : Prop where
  ends : Ends (fun steps => (cutFrom steps (front ++ rest) (Text.bytes front).length).run) outcome
  same : outcome.map (·.components) =
    ((cuts rest.length rest).1.mapM (Cut.components scan)).map List.flatten
  around : ∀ cutting, outcome = .ok cutting → cutting.around = remainder (cuts rest.length rest)
  exact : ∀ cutting, outcome = .ok cutting →
    Exact (front ++ rest) (Text.bytes front).length cutting.spans cutting.around cutting.calls

theorem CutOutcome.last (h : firstHeader? rest = none) :
    CutOutcome front rest (.ok ⟨[], [], rest, []⟩) where
  ends := ends_succ ⟨0, fun steps _ => cutFrom_last steps h⟩
  same := by
    rw [cuts_eq_nil h]
    rfl
  around := by
    rintro cutting ⟨⟩
    rw [cuts_eq_nil h]
    rfl
  exact := by
    rintro cutting ⟨⟩
    exact .nil h

theorem CutOutcome.unclosed
    (h : firstHeader? (before ++ (stem ++ '\x7b' :: inner)) = some (before, header, inner))
    (hnone : body? .outside 1 inner = none) :
    CutOutcome front (before ++ (stem ++ '\x7b' :: inner))
      (.error (.unterminatedComponent header.name)) where
  ends := ends_succ ⟨0, fun steps _ => cutFrom_unclosed steps h hnone⟩
  same := by
    rw [cuts_unclosed h hnone]
    rfl
  around := by rintro cutting ⟨⟩
  exact := by rintro cutting ⟨⟩

theorem Cut.components_some (before : List Char) (header : Header) (body : List Char) :
    Cut.components scan ⟨before, header, some body⟩ =
      (scan body).map fun found => found.2 ++ [{ header with statements := found.1 }] := by
  show (scan body >>= fun found => Except.ok (found.2 ++ [{ header with statements := found.1 }])) =
    (scan body).map _
  cases scan body <;> rfl

theorem scans_of_outcome {found : (Statements × List Component) × Trace}
    (hhead : IsHeader (stem ++ ['\x7b'])) (hbody : Balanced body)
    (hfound : ScanOutcome body (.ok found)) :
    Trace.Scans (joined front before stem body rest) (extentOf front before stem body) found.2 := by
  have hgiven : found.2.text = body := (hfound.records found rfl).given
  refine ⟨?_, ?_, found.1, ?_⟩
  · rw [hgiven]
    exact extentOf_holds hhead hbody
  · rw [hgiven, joined_eq, List.length_append, upTo, List.length_append, List.length_append]
    simp only [List.length_singleton]
    omega
  · rw [hgiven]
    exact hfound.ends

theorem CutOutcome.cons {found : Except ParseFault ((Statements × List Component) × Trace)}
    {more : Except ParseFault Cutting}
    (h : firstHeader? (before ++ (stem ++ '\x7b' :: (body ++ '\x7d' :: rest))) =
      some (before, header, body ++ '\x7d' :: rest))
    (hfirst : FirstHeader (before ++ (stem ++ '\x7b' :: (body ++ '\x7d' :: rest))) before
      (stem ++ ['\x7b']) (body ++ '\x7d' :: rest))
    (hbody : Balanced body) (hfound : ScanOutcome body found)
    (hmore : CutOutcome (upTo front before stem body) rest more) :
    CutOutcome front (before ++ (stem ++ '\x7b' :: (body ++ '\x7d' :: rest)))
      (found >>= fun found => more.map
        (Cutting.after header (extentOf front before stem body) before found)) := by
  have hclosed : body? .outside 1 (body ++ '\x7d' :: rest) = some (body, rest) :=
    body?_eq_some_iff.mpr ⟨rfl, hbody⟩
  have hends := hmore.ends
  rw [← joined_eq] at hends
  constructor
  · have hstep (steps : Nat) : (cutFrom (steps + 1) (joined front before stem body rest)
        (Text.bytes front).length).run = _ := cutFrom_cons steps h hbody
    apply ends_succ
    show Ends (fun steps => (cutFrom (steps + 1) (joined front before stem body rest)
      (Text.bytes front).length).run) _
    simp only [hstep]
    refine ends_bind hfound.ends fun a _ => ?_
    exact ends_bind hends fun cutting _ => ends_const rfl
  · -- Both scans read the body first, and fail with it, before they look behind it.
    rw [cuts_cons h hclosed, List.mapM_cons, Cut.components_some, ← hfound.same]
    cases found with
    | error fault => rfl
    | ok found =>
      rcases map_eq_map hmore.same with ⟨fault, rfl, hrest⟩ | ⟨cutting, components, rfl, hrest, heq⟩
      · rw [hrest]
        rfl
      · rw [hrest]
        simp [Except.map, Cutting.after, heq]
  · intro cutting hcutting
    obtain ⟨found, rfl, hcutting⟩ := bind_eq_ok.mp hcutting
    obtain ⟨behind, rfl, rfl⟩ := map_eq_ok.mp hcutting
    rw [cuts_cons h hclosed, Cutting.after, hmore.around behind rfl]
    simp [remainder]
  · intro cutting hcutting
    obtain ⟨found, rfl, hcutting⟩ := bind_eq_ok.mp hcutting
    obtain ⟨behind, rfl, rfl⟩ := map_eq_ok.mp hcutting
    have hexact := hmore.exact behind rfl
    rw [← joined_eq] at hexact
    exact hexact.cons hfirst (scans_of_outcome hfirst.isHeader hbody hfound)

/-- The loop comes to an outcome from any cursor on where the scans of shorter texts do. -/
theorem exists_cutOutcome
    (hbodies : ∀ body, body.length < text.length → ∃ outcome, ScanOutcome body outcome)
    (front rest : List Char) (hlength : rest.length ≤ text.length) :
    ∃ outcome, CutOutcome front rest outcome := by
  -- Each turn of the loop leaves less behind the cursor.
  induction hn : rest.length using Nat.strongRecOn generalizing front rest with
  | ind n ih =>
    subst hn
    cases hheader : firstHeader? rest with
    | none => exact ⟨_, .last hheader⟩
    | some p =>
      obtain ⟨before, header, inner⟩ := p
      obtain ⟨head, hfirst⟩ := firstHeader?_sound hheader
      obtain ⟨stem, rfl⟩ := hfirst.isHeader.exists_stem
      have hrest : rest = before ++ (stem ++ '\x7b' :: inner) := by
        rw [hfirst.text]
        simp
      subst hrest
      cases hbody : body? .outside 1 inner with
      | none => exact ⟨_, .unclosed hheader hbody⟩
      | some p =>
        obtain ⟨body, behind⟩ := p
        obtain ⟨hshort, hless⟩ := body?_length hheader hbody
        obtain ⟨rfl, hbalanced⟩ := body?_eq_some_iff.mp hbody
        obtain ⟨found, hfound⟩ := hbodies body (by omega)
        obtain ⟨more, hmore⟩ := ih _ hless (upTo front before stem body) behind (by omega) rfl
        exact ⟨_, .cons hheader hfirst hbalanced hfound hmore⟩

/-- What the scan makes of a cut text. -/
def Cutting.read (text : List Char) (cutting : Cutting) :
    Except ParseFault ((Statements × List Component) × Trace) :=
  (Statements.read cutting.around).map fun statements =>
    ((statements, cutting.components), ⟨text, cutting.spans, cutting.around, cutting.calls⟩)

theorem CutOutcome.scan {cut : Except ParseFault Cutting} (h : CutOutcome [] text cut) :
    ScanOutcome text (cut >>= Cutting.read text) := by
  have hends : Ends (fun steps => (cutFrom steps text 0).run) cut := h.ends
  have hsame : (cut >>= Cutting.read text).map (·.1) = Program.scan text := by
    rw [scan_eq]
    rcases map_eq_map h.same with ⟨fault, rfl, hcuts⟩ | ⟨cutting, components, rfl, hcuts, heq⟩
    · rw [hcuts]
      rfl
    · rw [hcuts, ok_bind, ok_bind, Cutting.read, h.around cutting rfl, heq]
      cases Statements.read (remainder (cuts text.length text)) <;> rfl
  refine ⟨?_, hsame, ?_, ?_⟩
  · apply ends_succ
    simp only [scanOffsets]
    refine ends_bind hends fun cutting _ => ?_
    have hread : Ends (fun _ => (ExceptT.mk (some (Statements.read cutting.around)) :
        Slicing Statements).run) (Statements.read cutting.around) := ends_const rfl
    exact ends_bind hread fun statements _ => ends_const rfl
  · intro found hfound
    obtain ⟨cutting, rfl, hfound⟩ := bind_eq_ok.mp hfound
    obtain ⟨statements, hstatements, rfl⟩ := map_eq_ok.mp hfound
    exact ⟨rfl, h.exact cutting rfl, hstatements⟩
  · intro inner hmeets hunclosed
    obtain ⟨fault, hfault⟩ := hmeets.scan_error hunclosed
    rw [hfault] at hsame
    cases houtcome : cut >>= Cutting.read text with
    | error fault' => exact ⟨fault', rfl⟩
    | ok found =>
      rw [houtcome] at hsame
      cases hsame

/-- Component bodies are cut out exactly: the scan of any text ends, without a slice outside of the
text or inside a character, and comes to what the scan character by character comes to. -/
theorem scanOffsets_exact (text : List Char) : ∃ outcome, ScanOutcome text outcome := by
  induction hn : text.length using Nat.strongRecOn generalizing text with
  | ind n ih =>
    subst hn
    have hbodies : ∀ body, body.length < text.length → ∃ outcome, ScanOutcome body outcome :=
      fun body hless => ih _ hless body rfl
    obtain ⟨cut, hcut⟩ := exists_cutOutcome hbodies [] text (Nat.le_refl _)
    exact ⟨_, hcut.scan⟩

end TreeFacts.Program
