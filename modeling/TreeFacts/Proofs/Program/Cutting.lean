import TreeFacts.Proofs.Program.Forms
import TreeFacts.Proofs.Program.Interface
import TreeFacts.Proofs.Result

namespace TreeFacts.Program

/-- How a scan stands behind a character. -/
def Quoting.step : Quoting → Char → Quoting
  | .outside, c => if c = '"' then .inside else .outside
  | .inside, c => if c = '\\' then .escaped else if c = '"' then .outside else .inside
  | .escaped, _ => .inside

def Quoting.after (q : Quoting) (cs : List Char) : Quoting := cs.foldl Quoting.step q

theorem Quoting.after_append (q : Quoting) (front rest : List Char) :
    q.after (front ++ rest) = (q.after front).after rest := List.foldl_append

variable {cs before inner text rest body : List Char} {header : Header}

theorem firstHeader?_eq_some (h : firstHeader? cs = some (before, header, inner)) :
    ∃ found, cs = before ++ found ∧ header? found = some (header, inner) := by
  induction cs generalizing before with
  | nil => cases h
  | cons c cs ih =>
    rw [firstHeader?] at h
    cases hheader : header? (c :: cs) with
    | some p =>
      rw [hheader] at h
      cases h
      exact ⟨c :: cs, rfl, hheader⟩
    | none =>
      rw [hheader] at h
      obtain ⟨⟨front, found⟩, hfront, heq⟩ := Option.map_eq_some_iff.mp h
      cases heq
      obtain ⟨after, rfl, hafter⟩ := ih hfront
      exact ⟨after, rfl, hafter⟩

/-- A scan for a closing brace goes on unless it is at that brace. -/
theorem body?_cons (q : Quoting) (depth : Nat) (c : Char) :
    (q = .outside ∧ c = '\x7d' ∧ ∀ cs, body? q depth (c :: cs) = some ([], cs)) ∨
      ∃ depth', (q ≠ .outside → depth' = depth) ∧ ∀ cs, body? q depth (c :: cs) =
        (body? (q.step c) depth' cs).map fun p => (c :: p.1, p.2) := by
  cases q with
  | outside =>
    by_cases hclose : c = '\x7d' ∧ depth ≤ 1
    · exact Or.inl ⟨rfl, hclose.1, fun _ => if_pos hclose⟩
    · refine Or.inr ⟨if c = '\x7b' then depth + 1 else if c = '\x7d' then depth - 1 else depth,
        fun h => absurd rfl h, fun cs => ?_⟩
      rw [body?, if_neg hclose]
      rfl
  | inside => exact Or.inr ⟨depth, fun _ => rfl, fun _ => rfl⟩
  | escaped => exact Or.inr ⟨depth, fun _ => rfl, fun _ => rfl⟩

theorem body?_eq_some {q : Quoting} {depth : Nat} (h : body? q depth cs = some (text, rest)) :
    cs = text ++ '\x7d' :: rest ∧ q.after text = .outside := by
  induction cs generalizing q depth text with
  | nil => cases q <;> cases h
  | cons c cs ih =>
    rcases body?_cons q depth c with ⟨rfl, rfl, hclose⟩ | ⟨depth', -, hnext⟩
    · rw [hclose] at h
      cases h
      exact ⟨rfl, rfl⟩
    · rw [hnext] at h
      obtain ⟨⟨front, after⟩, hfront, heq⟩ := Option.map_eq_some_iff.mp h
      cases heq
      obtain ⟨rfl, houtside⟩ := ih hfront
      exact ⟨rfl, houtside⟩

/-- What is cut out of a text, and what is left, is shorter. -/
theorem body?_length (hheader : firstHeader? cs = some (before, header, inner))
    (hbody : body? .outside 1 inner = some (body, rest)) :
    body.length < cs.length ∧ rest.length < cs.length := by
  obtain ⟨found, rfl, hfound⟩ := firstHeader?_eq_some hheader
  have hinner := (header?_steady.suffix hfound).length_le
  rw [(body?_eq_some hbody).1, List.length_append, List.length_cons] at hinner
  rw [List.length_append]
  omega

theorem cuts_fuel {fuel fuel' : Nat} (hfuel : cs.length ≤ fuel) (hfuel' : cs.length ≤ fuel') :
    cuts fuel cs = cuts fuel' cs := by
  induction fuel generalizing fuel' cs with
  | zero =>
    cases List.length_eq_zero_iff.mp (Nat.le_zero.mp hfuel)
    rw [cuts_eq_nil rfl, cuts_eq_nil rfl]
  | succ fuel ih =>
    cases fuel' with
    | zero =>
      cases List.length_eq_zero_iff.mp (Nat.le_zero.mp hfuel')
      rw [cuts_eq_nil rfl, cuts_eq_nil rfl]
    | succ fuel' =>
      rw [cuts, cuts]
      cases hheader : firstHeader? cs with
      | none => rfl
      | some p =>
        obtain ⟨before, header, inner⟩ := p
        simp only
        cases hbody : body? .outside 1 inner with
        | none => rfl
        | some p =>
          have hlength := (body?_length hheader hbody).2
          have hrest : cuts fuel p.2 = cuts fuel' p.2 := ih (by omega) (by omega)
          simp only [hrest]

theorem cuts_cons (hheader : firstHeader? cs = some (before, header, inner))
    (hbody : body? .outside 1 inner = some (body, rest)) : cuts cs.length cs =
      (⟨before, header, some body⟩ :: (cuts rest.length rest).1, (cuts rest.length rest).2) := by
  have hlength := (body?_length hheader hbody).2
  obtain ⟨fuel, hfuel⟩ : ∃ n, cs.length = n + 1 := ⟨cs.length - 1, by omega⟩
  have hmore : cuts fuel rest = cuts rest.length rest := cuts_fuel (by omega) (Nat.le_refl _)
  rw [hfuel, cuts, hheader]
  simp only [hbody, hmore]

theorem cuts_unclosed (hheader : firstHeader? cs = some (before, header, inner))
    (hbody : body? .outside 1 inner = none) :
    cuts cs.length cs = ([⟨before, header, none⟩], []) := by
  cases cs with
  | nil => cases hheader
  | cons c cs =>
    rw [List.length_cons, cuts, hheader]
    simp only [hbody]

theorem length_of_mem_cuts {fuel : Nat} {cut : Cut} (h : cut ∈ (cuts fuel cs).1)
    (hbody : cut.body = some body) : body.length < cs.length := by
  induction fuel generalizing cs with
  | zero => cases h
  | succ fuel ih =>
    rw [cuts] at h
    cases hheader : firstHeader? cs with
    | none =>
      rw [hheader] at h
      cases h
    | some p =>
      obtain ⟨before, header, inner⟩ := p
      rw [hheader] at h
      simp only at h
      cases hinner : body? .outside 1 inner with
      | none =>
        rw [hinner] at h
        cases List.mem_singleton.mp h
        cases hbody
      | some p =>
        rw [hinner] at h
        obtain ⟨hfirst, hrest⟩ := body?_length hheader hinner
        rcases List.mem_cons.mp h with rfl | h
        · cases hbody
          exact hfirst
        · exact Nat.lt_trans (ih h) hrest

/-- The components of a cut: those nested in its body, then its own. -/
def Cut.components (scan : List Char → Except ParseFault (Statements × List Component))
    (cut : Cut) : Except ParseFault (List Component) :=
  match cut.body with
  | none => .error (.unterminatedComponent cut.header.name)
  | some body => do
    let (statements, nested) ← scan body
    return nested ++ [{ cut.header with statements }]

theorem scanIn_succ (fuel : Nat) (cs : List Char) : scanIn (fuel + 1) cs = do
    let components ← (cuts cs.length cs).1.mapM (Cut.components (scanIn fuel))
    return (← Statements.read (remainder (cuts cs.length cs)), components.flatten) := rfl

theorem Cut.components_congr {cut : Cut}
    {scan scan' : List Char → Except ParseFault (Statements × List Component)}
    (h : ∀ body, cut.body = some body → scan body = scan' body) :
    cut.components scan = cut.components scan' := by
  unfold Cut.components
  cases hbody : cut.body with
  | none => rfl
  | some body => simp only [h body hbody]

theorem scanIn_fuel {fuel fuel' : Nat} (hfuel : cs.length ≤ fuel) (hfuel' : cs.length ≤ fuel') :
    scanIn fuel cs = scanIn fuel' cs := by
  have hnil (fuel : Nat) : scanIn fuel [] = (Statements.read []).map (·, []) := by
    cases fuel with
    | zero => rfl
    | succ fuel =>
      rw [scanIn_succ]
      rfl
  induction fuel generalizing fuel' cs with
  | zero =>
    cases List.length_eq_zero_iff.mp (Nat.le_zero.mp hfuel)
    rw [hnil, hnil]
  | succ fuel ih =>
    cases fuel' with
    | zero =>
      cases List.length_eq_zero_iff.mp (Nat.le_zero.mp hfuel')
      rw [hnil, hnil]
    | succ fuel' =>
      have hcomponents : (cuts cs.length cs).1.mapM (Cut.components (scanIn fuel)) =
          (cuts cs.length cs).1.mapM (Cut.components (scanIn fuel')) := by
        refine mapM_congr fun cut hcut => Cut.components_congr fun body hbody => ?_
        have hlength := length_of_mem_cuts hcut hbody
        exact ih (by omega) (by omega)
      rw [scanIn_succ, scanIn_succ, hcomponents]

/-- A text is scanned as its components, each with a body that is scanned in the same way, and the
statements around them. -/
theorem scan_eq (cs : List Char) : scan cs = do
    let components ← (cuts cs.length cs).1.mapM (Cut.components scan)
    return (← Statements.read (remainder (cuts cs.length cs)), components.flatten) := by
  have hcomponents : (cuts cs.length cs).1.mapM (Cut.components (scanIn cs.length)) =
      (cuts cs.length cs).1.mapM (Cut.components scan) := by
    refine mapM_congr fun cut hcut => Cut.components_congr fun body hbody => ?_
    have hlength := length_of_mem_cuts hcut hbody
    exact scanIn_fuel (by omega) (Nat.le_refl _)
  have hdeeper : scan cs = scanIn (cs.length + 1) cs := scanIn_fuel (Nat.le_refl _) (by omega)
  rw [hdeeper, scanIn_succ, hcomponents]

end TreeFacts.Program
