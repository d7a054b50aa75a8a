import TreeFacts.Proofs.Program.Cutting

namespace TreeFacts.Program

/-- A text without what stands between the quotes of its strings. -/
def hollow : Quoting → List Char → List Char
  | _, [] => []
  | q, c :: cs =>
    if q = .outside ∨ q.step c = .outside then c :: hollow (q.step c) cs else hollow (q.step c) cs

/-- How a scan stands in a text without what is in its strings, where it stands so in the text. -/
def Quoting.unescaped : Quoting → Quoting
  | .outside => .outside
  | .inside | .escaped => .inside

/-- What is recognised at the front of a text is outside strings and has no quote in it. -/
def Apart {α : Type} (recognise : Recogniser α) (q : Quoting) (cs : List Char) : Prop :=
  ∀ p ∈ recognise cs, q = .outside ∧ '"' ∉ cs.take (cs.length - p.2.length)

/-- Nothing that is recognised anywhere in a text begins in a string or reaches one. -/
def Clear {α : Type} (recognise : Recogniser α) : Quoting → List Char → Prop
  | _, [] => True
  | q, c :: cs => Apart recognise q (c :: cs) ∧ Clear recognise (q.step c) cs

instance {α : Type} (recognise : Recogniser α) (q : Quoting) (cs : List Char) :
    Decidable (Apart recognise q cs) :=
  match h : recognise cs with
  | none => isTrue fun p hp => by rw [h] at hp; cases hp
  | some p => decidable_of_iff (q = .outside ∧ '"' ∉ cs.take (cs.length - p.2.length)) <| by
    simp only [Apart, h, Option.mem_def, Option.some.injEq, forall_eq']

instance {α : Type} (recognise : Recogniser α) :
    (q : Quoting) → (cs : List Char) → Decidable (Clear recognise q cs)
  | _, [] => isTrue trivial
  | q, c :: cs =>
    have := instDecidableClear recognise (q.step c) cs
    inferInstanceAs (Decidable (Apart recognise q (c :: cs) ∧ Clear recognise (q.step c) cs))

variable {α β : Type} {q : Quoting} {c : Char} {cs front rest : List Char}
  {recognise : Recogniser α}

theorem hollow_kept (h : q = .outside ∨ q.step c = .outside) (cs : List Char) :
    hollow q (c :: cs) = c :: hollow (q.step c) cs := if_pos h

theorem hollow_dropped (h : ¬(q = .outside ∨ q.step c = .outside)) (cs : List Char) :
    hollow q (c :: cs) = hollow (q.step c) cs := if_neg h

theorem unescaped_step_kept (h : q = .outside ∨ q.step c = .outside) :
    q.unescaped.step c = (q.step c).unescaped := by
  cases q with
  | outside => simp only [Quoting.unescaped, Quoting.step]; split <;> rfl
  | inside =>
    have hclose : Quoting.inside.step c = .outside := h.resolve_left (by simp)
    rw [Quoting.unescaped, hclose]
    rfl
  | escaped => exact absurd h (by simp [Quoting.step])

theorem unescaped_step_dropped (h : ¬(q = .outside ∨ q.step c = .outside)) :
    (q.step c).unescaped = q.unescaped := by
  rw [not_or] at h
  have hinside {q : Quoting} (h : q ≠ .outside) : q.unescaped = .inside := by
    cases q <;> simp_all [Quoting.unescaped]
  rw [hinside h.1, hinside h.2]

theorem hollow_append (q : Quoting) (front rest : List Char) :
    hollow q (front ++ rest) = hollow q front ++ hollow (q.after front) rest := by
  induction front generalizing q with
  | nil => rfl
  | cons c front ih =>
    have hafter : q.after (c :: front) = (q.step c).after front := rfl
    rw [List.cons_append, hafter]
    by_cases h : q = .outside ∨ q.step c = .outside
    · rw [hollow_kept h, hollow_kept h, ih, List.cons_append]
    · rw [hollow_dropped h, hollow_dropped h, ih]

theorem outside_step (h : c ≠ '"') : Quoting.outside.step c = .outside := if_neg h

theorem outside_after (h : '"' ∉ front) : Quoting.outside.after front = .outside := by
  induction front with
  | nil => rfl
  | cons c front ih =>
    rw [List.mem_cons, not_or] at h
    show (Quoting.outside.step c).after front = .outside
    rw [outside_step (Ne.symm h.1)]
    exact ih h.2

theorem hollow_of_notMem (h : '"' ∉ front) : hollow .outside front = front := by
  induction front with
  | nil => rfl
  | cons c front ih =>
    rw [List.mem_cons, not_or] at h
    rw [hollow_kept (Or.inl rfl), outside_step (Ne.symm h.1), ih h.2]

theorem hollow_append_of_notMem (h : '"' ∉ front) (rest : List Char) :
    hollow .outside (front ++ rest) = front ++ hollow .outside rest := by
  rw [hollow_append, hollow_of_notMem h, outside_after h]

theorem Clear.apart (h : Clear recognise q cs) (hcs : cs ≠ []) : Apart recognise q cs := by
  obtain ⟨c, cs, rfl⟩ := List.exists_cons_of_ne_nil hcs
  exact h.1

theorem clear_append (h : Clear recognise q (front ++ rest)) :
    Clear recognise (q.after front) rest := by
  induction front generalizing q with
  | nil => exact h
  | cons c front ih => exact ih h.2

/-- What is recognised outside strings, in a text as it is and without what is in its strings. -/
theorem recognise_hollow (hs : Steady recognise) (h : Apart recognise .outside cs)
    (h' : Apart recognise .outside (hollow .outside cs)) :
    recognise (hollow .outside cs) = (recognise cs).map fun p => (p.1, hollow .outside p.2) := by
  by_cases hquote : '"' ∈ cs
  · obtain ⟨front, behind, rfl, hfront⟩ := List.eq_append_cons_of_mem hquote
    have hhollow : hollow .outside (front ++ '"' :: behind) =
        front ++ '"' :: hollow .inside behind := hollow_append_of_notMem hfront _
    rw [hhollow] at h' ⊢
    -- Something that is recognised across the quote has the quote in it.
    have hcross {behind rest : List Char} {found : α}
        (h : Apart recognise .outside (front ++ '"' :: behind))
        (hfound : recognise (front ++ '"' :: behind) = some (found, rest)) :
        ¬rest.length ≤ behind.length := by
      intro hover
      refine (h _ hfound).2 ?_
      have htake : (front ++ ['"']) <+: (front ++ '"' :: behind).take
          ((front ++ '"' :: behind).length - rest.length) := by
        rw [List.prefix_take_iff]
        refine ⟨⟨behind, by simp⟩, ?_⟩
        simp only [List.length_append, List.length_cons, List.length_nil]
        omega
      exact htake.subset (List.mem_append_right front List.mem_cons_self)
    cases hs.agree hfront behind (hollow .inside behind) with
    | nowhere h h' => rw [h, h']; rfl
    | @within found rest hfound hfound' =>
      have hrest := notMem_of_suffix hfront (suffix_of_append (hs.suffix hfound))
      rw [hfound, hfound', Option.map_some, hollow_append_of_notMem hrest]
      rfl
    | left hfound hover => exact absurd hover (hcross h hfound)
    | right hfound hover => exact absurd hover (hcross h' hfound)
  · rw [hollow_of_notMem hquote]
    cases hfound : recognise cs with
    | none => rfl
    | some p =>
      have hrest := notMem_of_suffix hquote (hs.suffix hfound)
      rw [Option.map_some, hollow_of_notMem hrest]

/-- The texts are searched in step, or what the first has more is in a string. -/
theorem recognise_cases (hs : Steady recognise) (h : Clear recognise q (c :: cs))
    (h' : Clear recognise q.unescaped (hollow q (c :: cs))) :
    ((q = .outside ∨ q.step c = .outside) ∧ recognise (c :: hollow (q.step c) cs) =
        (recognise (c :: cs)).map fun p => (p.1, hollow .outside p.2)) ∨
      ¬(q = .outside ∨ q.step c = .outside) ∧ recognise (c :: cs) = none := by
  have hnone {q : Quoting} {cs : List Char} (hq : q ≠ .outside) (h : Apart recognise q cs) :
      recognise cs = none := by
    cases hfound : recognise cs with
    | none => rfl
    | some p => exact absurd (h p hfound).1 hq
  by_cases hkept : q = .outside ∨ q.step c = .outside
  · refine Or.inl ⟨hkept, ?_⟩
    rw [hollow_kept hkept] at h'
    by_cases hq : q = .outside
    · subst hq
      have hfront := recognise_hollow hs h.1 (by rw [hollow_kept hkept]; exact h'.1)
      rwa [hollow_kept hkept] at hfront
    · have hq' : q.unescaped ≠ .outside := by cases q <;> simp_all [Quoting.unescaped]
      rw [hnone hq h.1, hnone hq' h'.1]
      rfl
  · exact Or.inr ⟨hkept, hnone (not_or.mp hkept).1 h.1⟩

theorem clear_hollow_tail (h : Clear recognise q.unescaped (hollow q (c :: cs))) :
    Clear recognise (q.step c).unescaped (hollow (q.step c) cs) := by
  by_cases hkept : q = .outside ∨ q.step c = .outside
  · rw [hollow_kept hkept] at h
    rw [← unescaped_step_kept hkept]
    exact h.2
  · rw [hollow_dropped hkept] at h
    rw [unescaped_step_dropped hkept]
    exact h

/-- Where a position of a text is in the text without what is in its strings. -/
def rank (cs : List Char) (position : Nat) : Nat := (hollow .outside (cs.take position)).length

/-- A position of a text that is outside its strings. -/
def Uncovered (cs : List Char) (position : Nat) : Prop :=
  position < cs.length ∧ Quoting.outside.after (cs.take position) = .outside

theorem rank_mono (cs : List Char) {i j : Nat} (h : i ≤ j) : rank cs i ≤ rank cs j := by
  obtain ⟨more, hmore⟩ := List.take_prefix_take_left (l := cs) h
  rw [rank, rank, ← hmore, hollow_append, List.length_append]
  exact Nat.le_add_right _ _

theorem rank_lt {i j : Nat} (hi : Uncovered cs i) (h : i < j) : rank cs i < rank cs j := by
  obtain ⟨hlength, houtside⟩ := hi
  have hnext : rank cs (i + 1) = rank cs i + 1 := by
    rw [rank, rank, List.take_succ_eq_append_getElem hlength, hollow_append, houtside,
      hollow_kept (Or.inl rfl), List.length_append]
    rfl
  have hmono : rank cs (i + 1) ≤ rank cs j := rank_mono cs h
  omega

theorem rank_le_iff {i j : Nat} (hj : Uncovered cs j) : rank cs i ≤ rank cs j ↔ i ≤ j := by
  refine ⟨fun h => ?_, rank_mono cs⟩
  by_contra hlt
  have hrank := rank_lt hj (Nat.lt_of_not_le hlt)
  omega

theorem findAllFrom_next (h : ∀ p ∈ recognise (c :: cs), (c :: cs).length ≤ p.2.length) (n : Nat) :
    findAllFrom recognise n (c :: cs) = findAllFrom recognise (n + 1) cs := by
  rw [findAllFrom]
  cases hfound : recognise (c :: cs) with
  | none => rfl
  | some p =>
    simp only
    rw [if_neg (Nat.not_lt.mpr (h p hfound))]

theorem findAllFrom_found {found : α} (hfront : front ≠ [])
    (h : recognise (front ++ rest) = some (found, rest)) (n : Nat) :
    findAllFrom recognise n (front ++ rest) =
      (n, found) :: findAllFrom recognise (n + front.length) rest := by
  obtain ⟨c, cs, rfl⟩ := List.exists_cons_of_ne_nil hfront
  have hshorter : rest.length < (c :: (cs ++ rest)).length := by
    simp only [List.length_cons, List.length_append]
    omega
  have hend : n + ((c :: (cs ++ rest)).length - rest.length) = n + (c :: cs).length := by
    simp only [List.length_cons, List.length_append]
    omega
  rw [List.cons_append] at h ⊢
  rw [findAllFrom, h]
  simp only
  rw [if_pos hshorter, hend]

/-- A search goes on behind what it has found, or behind the next character. -/
theorem next_or_found (hs : Steady recognise) (cs : List Char) :
    (∀ p ∈ recognise cs, cs.length ≤ p.2.length) ∨
      ∃ found front rest, cs = front ++ rest ∧ front ≠ [] ∧
        recognise (front ++ rest) = some (found, rest) := by
  cases hfound : recognise cs with
  | none => exact Or.inl fun p hp => by cases hp
  | some p =>
    obtain ⟨front, hfront⟩ := hs.suffix hfound
    by_cases hnil : front = []
    · refine Or.inl fun p' hp' => ?_
      cases hp'
      rw [← hfront, hnil]
      exact Nat.le_refl _
    · exact Or.inr ⟨p.1, front, p.2, hfront.symm, hnil, hfront.symm ▸ hfound⟩

/-- In what is recognised at the front of a text is no quote. -/
theorem Clear.recognised {found : α} (h : Clear recognise q (front ++ rest))
    (hne : front ++ rest ≠ []) (hfound : recognise (front ++ rest) = some (found, rest)) :
    q = .outside ∧ '"' ∉ front := by
  have hquote := h.apart hne _ hfound
  rwa [List.length_append, Nat.add_sub_cancel, List.take_left] at hquote

/-- What is found has no quote in it, so that it stands in both texts alike. -/
theorem Clear.found {found : α} (hs : Steady recognise) (h : Clear recognise q (front ++ rest))
    (h' : Clear recognise q.unescaped (hollow q (front ++ rest))) (hne : front ≠ [])
    (hfound : recognise (front ++ rest) = some (found, rest)) :
    q = .outside ∧ '"' ∉ front ∧
      recognise (front ++ hollow .outside rest) = some (found, hollow .outside rest) ∧
      Clear recognise .outside rest ∧ Clear recognise .outside (hollow .outside rest) := by
  have hne' : front ++ rest ≠ [] := by simp [hne]
  obtain ⟨rfl, hquote⟩ := h.recognised hne' hfound
  have hrest := clear_append h
  rw [hollow_append_of_notMem hquote] at h'
  have hrest' := clear_append h'
  rw [outside_after hquote] at hrest
  rw [Quoting.unescaped, outside_after hquote] at hrest'
  refine ⟨rfl, hquote, ?_, hrest, hrest'⟩
  have hboth := recognise_hollow hs (h.apart hne')
    (by rw [hollow_append_of_notMem hquote]; exact h'.apart (by simp [hne]))
  rw [hollow_append_of_notMem hquote, hfound] at hboth
  exact hboth

/-- Behind a text the same is found with and without what is in the strings, in positions that
follow each other. -/
structure Mirrored (recognise : Recogniser α) (pre cs : List Char) : Prop where
  found : findAllFrom recognise (hollow .outside pre).length
      (hollow (Quoting.outside.after pre) cs) =
    (findAllFrom recognise pre.length cs).map fun p => (rank (pre ++ cs) p.1, p.2)
  uncovered : ∀ p ∈ findAllFrom recognise pre.length cs, Uncovered (pre ++ cs) p.1

namespace Mirrored

variable {pre : List Char}

/-- Where nothing is found at a character, the search goes on behind it. -/
theorem next (h : Mirrored recognise (pre ++ [c]) cs)
    (hstep : ∀ p ∈ recognise (c :: cs), (c :: cs).length ≤ p.2.length)
    (heq : findAllFrom recognise (hollow .outside pre).length
        (hollow (Quoting.outside.after pre) (c :: cs)) =
      findAllFrom recognise (hollow .outside (pre ++ [c])).length
        (hollow (Quoting.outside.after (pre ++ [c])) cs)) : Mirrored recognise pre (c :: cs) := by
  have hone : findAllFrom recognise pre.length (c :: cs) =
      findAllFrom recognise (pre ++ [c]).length cs := by
    rw [findAllFrom_next hstep, List.length_append, List.length_singleton]
  have htext : pre ++ c :: cs = pre ++ [c] ++ cs := by simp
  constructor
  · rw [heq, hone, htext]
    exact h.found
  · rw [hone, htext]
    exact h.uncovered

theorem kept (h : Mirrored recognise (pre ++ [c]) cs) (hq : Quoting.outside.after pre = q)
    (hkept : q = .outside ∨ q.step c = .outside)
    (hstep : ∀ p ∈ recognise (c :: cs), (c :: cs).length ≤ p.2.length)
    (hstep' : ∀ p ∈ recognise (c :: hollow (q.step c) cs),
      (c :: hollow (q.step c) cs).length ≤ p.2.length) : Mirrored recognise pre (c :: cs) := by
  refine h.next hstep ?_
  have hlast : Quoting.outside.after [c] = Quoting.outside.step c := rfl
  rw [Quoting.after_append, hollow_append, hq, hollow_kept hkept, hollow_kept hkept,
    findAllFrom_next hstep', List.length_append]
  rfl

theorem dropped (h : Mirrored recognise (pre ++ [c]) cs) (hq : Quoting.outside.after pre = q)
    (hdropped : ¬(q = .outside ∨ q.step c = .outside)) (hnone : recognise (c :: cs) = none) :
    Mirrored recognise pre (c :: cs) := by
  refine h.next (by rw [hnone]; exact fun p hp => by cases hp) ?_
  rw [Quoting.after_append, hollow_append, hq, hollow_dropped hdropped, hollow_dropped hdropped,
    hollow, List.append_nil]
  rfl

/-- What is found outside strings is found in both texts, and the search goes on behind it. -/
theorem recognised {found : α} (h : Mirrored recognise (pre ++ front) rest)
    (hpre : Quoting.outside.after pre = .outside) (hquote : '"' ∉ front) (hne : front ≠ [])
    (hfound : recognise (front ++ rest) = some (found, rest))
    (hfound' : recognise (front ++ hollow .outside rest) = some (found, hollow .outside rest)) :
    Mirrored recognise pre (front ++ rest) := by
  have hend : Quoting.outside.after (pre ++ front) = .outside := by
    rw [Quoting.after_append, hpre, outside_after hquote]
  obtain ⟨hmore, huncovered⟩ := h
  rw [hend, hollow_append, hpre, hollow_of_notMem hquote, List.length_append, List.length_append,
    List.append_assoc] at hmore
  rw [List.length_append, List.append_assoc] at huncovered
  constructor
  · rw [hpre, hollow_append_of_notMem hquote, findAllFrom_found hne hfound,
      findAllFrom_found hne hfound', hmore, List.map_cons, rank, List.take_left]
  · rw [findAllFrom_found hne hfound]
    have hpos := List.length_pos_iff.mpr hne
    have hfirst : Uncovered (pre ++ (front ++ rest)) pre.length := by
      refine ⟨?_, by rw [List.take_left]; exact hpre⟩
      rw [List.length_append, List.length_append]
      omega
    exact List.forall_mem_cons.mpr ⟨hfirst, huncovered⟩

end Mirrored

/-- The same is found in a text without what is in its strings, in other positions. -/
theorem findAllFrom_hollow (hs : Steady recognise) (pre : List Char)
    (hq : Quoting.outside.after pre = q) (h : Clear recognise q cs)
    (h' : Clear recognise q.unescaped (hollow q cs)) : Mirrored recognise pre cs := by
  -- A search may go on far behind a character, so the induction is on the length of the text.
  induction hlength : cs.length using Nat.strongRecOn generalizing q pre cs with
  | _ n ih =>
    subst hlength
    cases cs with
    | nil => constructor <;> simp [findAllFrom, hollow]
    | cons c cs =>
      have hlast : Quoting.outside.after (pre ++ [c]) = q.step c := by
        rw [Quoting.after_append, hq]
        rfl
      have hnext : Mirrored recognise (pre ++ [c]) cs :=
        ih cs.length (Nat.lt_succ_self _) _ hlast h.2 (clear_hollow_tail h') rfl
      rcases recognise_cases hs h h' with ⟨hkept, hrecognise⟩ | ⟨hdropped, hnone⟩
      · rcases next_or_found hs (c :: cs) with hstep | ⟨found, front, rest, heq, hne, hfound⟩
        · refine hnext.kept hq hkept hstep ?_
          rw [hrecognise]
          intro p' hp'
          obtain ⟨p, hp, rfl⟩ := Option.map_eq_some_iff.mp hp'
          have hsame : p.2 = c :: cs := (hs.suffix hp).eq_of_length_le (hstep p hp)
          cases (h.1 p hp).1
          simp only [hsame, hollow_kept hkept]
          exact Nat.le_refl _
        · rw [heq] at h h' ⊢
          obtain ⟨rfl, hquote, hfound', hrest, hrest'⟩ := h.found hs h' hne hfound
          have hend : Quoting.outside.after (pre ++ front) = .outside := by
            rw [Quoting.after_append, hq, outside_after hquote]
          have hshorter : rest.length < (c :: cs).length := by
            have hpos := List.length_pos_iff.mpr hne
            rw [heq, List.length_append]
            omega
          have hmore : Mirrored recognise (pre ++ front) rest :=
            ih rest.length hshorter _ hend hrest hrest' rfl
          exact hmore.recognised hq hquote hne hfound hfound'
      · exact hnext.dropped hq hdropped hnone

end TreeFacts.Program
