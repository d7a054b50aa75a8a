import Mathlib.Data.List.Basic
import TreeFacts.Text.Basic

namespace TreeFacts.Text

variable {part word front back : List Char} {c : Char}

theorem occursIn_iff {cs : List Char} : occursIn part cs = true ↔ part <:+: cs := by
  induction cs with
  | nil => rw [occursIn, List.isEmpty_iff, List.infix_nil]
  | cons c cs ih =>
    rw [occursIn, Bool.or_eq_true, ih, List.isPrefixOf_iff_prefix, List.infix_cons_iff]

theorem not_infix_of_notMem (h : c ∉ back) : ¬(c :: word) <:+: back :=
  fun hoccurs => h (hoccurs.subset List.mem_cons_self)

theorem eq_nil_of_prefix_cons (hc : c ∉ part) (h : part <+: c :: back) : part = [] := by
  rcases List.prefix_cons_iff.mp h with hnil | ⟨rest, rfl, -⟩
  · exact hnil
  · exact absurd List.mem_cons_self hc

/-- What has no separator in it stands on one side of the separator. -/
theorem infix_append_cons (h : c ∉ part) :
    part <:+: front ++ c :: back ↔ part <:+: front ∨ part <:+: back := by
  constructor
  · intro hoccurs
    rcases List.infix_append_iff.mp hoccurs with hfront | hback | ⟨start, rest, rfl, hstart, hrest⟩
    · exact Or.inl hfront
    · rcases List.infix_cons_iff.mp hback with hbegins | hback
      · rw [eq_nil_of_prefix_cons h hbegins]
        exact Or.inl List.nil_infix
      · exact Or.inr hback
    · rw [eq_nil_of_prefix_cons (fun hc => h (List.mem_append_right start hc)) hrest,
        List.append_nil]
      exact Or.inl hstart.isInfix
  · rintro (hfront | hback)
    · exact hfront.trans (List.prefix_append front (c :: back)).isInfix
    · exact hback.trans ((List.suffix_cons c back).trans (List.suffix_append front _)).isInfix

/-- A word behind a mark starts at that mark, or stands before it or after it. -/
theorem marked_infix_append_cons (h : c ∉ word) : (c :: word) <:+: front ++ c :: back ↔
    (c :: word) <:+: front ∨ word <+: back ∨ (c :: word) <:+: back := by
  have hback : (c :: word) <:+: c :: back ↔ word <+: back ∨ (c :: word) <:+: back := by
    rw [List.infix_cons_iff, List.cons_prefix_cons, and_iff_right rfl]
  constructor
  · intro hoccurs
    rcases List.infix_append_iff.mp hoccurs with hfront | hrest | ⟨start, rest, heq, hstart, hrest⟩
    · exact Or.inl hfront
    · exact Or.inr (hback.mp hrest)
    · cases start with
      | nil =>
        rw [List.nil_append] at heq
        exact Or.inr (hback.mp (heq ▸ hrest.isInfix))
      | cons d start =>
        -- The word has no further mark, so nothing of it reaches the one that is here.
        obtain ⟨rfl, hword⟩ := List.cons.inj heq
        have hnil : rest = [] := by
          refine eq_nil_of_prefix_cons (fun hc => h ?_) hrest
          rw [hword]
          exact List.mem_append_right start hc
        rw [heq, hnil, List.append_nil]
        exact Or.inl hstart.isInfix
  · rintro (hfront | hrest)
    · exact hfront.trans (List.prefix_append front (c :: back)).isInfix
    · exact (hback.mpr hrest).trans (List.suffix_append front _).isInfix

theorem prefix_append_of_head (hback : ∀ d ∈ back.head?, d ∉ word) :
    word <+: front ++ back ↔ word <+: front := by
  refine ⟨fun h => ?_, fun h => h.trans (List.prefix_append front back)⟩
  induction front generalizing word with
  | nil =>
    cases back with
    | nil => exact h
    | cons d back =>
      have hnil : word = [] := eq_nil_of_prefix_cons (hback d rfl) h
      exact hnil ▸ List.nil_prefix
  | cons d front ih =>
    rcases List.prefix_cons_iff.mp h with rfl | ⟨rest, rfl, hrest⟩
    · exact List.nil_prefix
    · refine List.cons_prefix_cons.mpr ⟨rfl, ih (fun e he hmem => ?_) hrest⟩
      exact hback e he (List.mem_cons_of_mem d hmem)

/-- Among words behind marks, a word occurs just where one of them begins with it. -/
theorem marked_infix_flatMap (h : c ∉ word) (hfront : c ∉ front) {words : List (List Char)}
    (hwords : ∀ w ∈ words, c ∉ w) :
    (c :: word) <:+: front ++ words.flatMap (c :: ·) ↔ ∃ w ∈ words, word <+: w := by
  induction words generalizing front with
  | nil => simpa using not_infix_of_notMem hfront
  | cons w words ih =>
    obtain ⟨hw, hwords⟩ := List.forall_mem_cons.mp hwords
    have hbegins : word <+: w ++ words.flatMap (c :: ·) ↔ word <+: w := by
      refine prefix_append_of_head fun d hd => ?_
      cases words with
      | nil => cases hd
      | cons next words => exact Option.some.inj hd ▸ h
    rw [List.flatMap_cons, List.cons_append, marked_infix_append_cons h, ih hw hwords, hbegins,
      or_iff_right (not_infix_of_notMem hfront), List.exists_mem_cons_iff]

/-- What stands behind the last mark is the same on both sides. -/
theorem append_cons_inj_of_notMem {front' back' : List Char} (hback : c ∉ back)
    (hback' : c ∉ back') :
    front ++ c :: back = front' ++ c :: back' ↔ front = front' ∧ back = back' := by
  refine ⟨fun h => ?_, fun ⟨hfront, hrest⟩ => by rw [hfront, hrest]⟩
  rcases List.append_eq_append_iff.mp h with ⟨middle, hfront, hrest⟩ | ⟨middle, hfront, hrest⟩
  · cases middle with
    | nil => simp_all
    | cons d middle =>
      obtain ⟨-, hrest⟩ := List.cons.inj hrest
      exact absurd (hrest ▸ List.mem_append_right middle List.mem_cons_self) hback
  · cases middle with
    | nil => simp_all
    | cons d middle =>
      obtain ⟨-, hrest⟩ := List.cons.inj hrest
      exact absurd (hrest ▸ List.mem_append_right middle List.mem_cons_self) hback'

theorem suffix_append_cons_iff {front' back' : List Char} (hback : c ∉ back)
    (hback' : c ∉ back') :
    front ++ c :: back <:+ front' ++ c :: back' ↔ front <:+ front' ∧ back = back' := by
  constructor
  · rintro ⟨start, hstart⟩
    rw [← List.append_assoc] at hstart
    obtain ⟨hfront, hrest⟩ := (append_cons_inj_of_notMem hback hback').mp hstart
    exact ⟨⟨start, hfront⟩, hrest⟩
  · rintro ⟨⟨start, rfl⟩, rfl⟩
    exact ⟨start, (List.append_assoc _ _ _).symm⟩

end TreeFacts.Text
