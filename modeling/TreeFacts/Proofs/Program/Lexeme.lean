import Mathlib.Data.List.Basic
import TreeFacts.Program.Lexeme
import TreeFacts.Proofs.Runs

namespace TreeFacts

theorem Text.dropFront?_append (front rest : List Char) :
    dropFront? front (front ++ rest) = some rest := by
  have hfront : front.isPrefixOf (front ++ rest) = true :=
    List.isPrefixOf_iff_prefix.mpr (List.prefix_append front rest)
  rw [dropFront?, if_pos hfront, List.drop_left]

theorem Text.dropFront?_eq_some {front cs rest : List Char} :
    dropFront? front cs = some rest ↔ cs = front ++ rest := by
  constructor
  · intro h
    unfold dropFront? at h
    split at h
    next hfront =>
      obtain ⟨tail, rfl⟩ := List.isPrefixOf_iff_prefix.mp hfront
      rw [List.drop_left] at h
      cases h
      rfl
    next => cases h
  · rintro rfl
    exact dropFront?_append front rest

@[simp] theorem Text.dropFront?_singleton (c : Char) (rest : List Char) :
    dropFront? [c] (c :: rest) = some rest :=
  dropFront?_append [c] rest

theorem Text.dropFront?_cons_of_ne {c d : Char} (h : c ≠ d) (front rest : List Char) :
    dropFront? (c :: front) (d :: rest) = none := by
  have hfront : (c :: front).isPrefixOf (d :: rest) = false := by
    simp [List.isPrefixOf, h]
  rw [dropFront?, hfront]
  rfl

namespace Program

/-- An ASCII letter or underscore, then also digits. -/
def IsName (name : String) : Prop :=
  name.toList.head?.any isNameStart = true ∧ name.toList.all isNameChar = true

instance (name : String) : Decidable (IsName name) := inferInstanceAs (Decidable (_ ∧ _))

variable {name : String} {c : Char} {cs rest : List Char}

theorem isNameChar_of_isNameStart (h : isNameStart c = true) : isNameChar c = true := by
  rcases Bool.or_eq_true_iff.mp h with ha | hu
  · have hword : c.isAlphanum = true := Bool.or_eq_true_iff.mpr (Or.inl ha)
    rw [isNameChar, hword, Bool.true_or]
  · rw [isNameChar, hu, Bool.or_true]

theorem toNat_of_isNameChar (h : isNameChar c = true) : 48 ≤ c.toNat ∧ c.toNat ≤ 122 := by
  -- The classes of characters are ranges of code points, and the underscore stands apart.
  have hchar : (((65 ≤ c.val ∧ c.val ≤ 90) ∨ (97 ≤ c.val ∧ c.val ≤ 122)) ∨
      (48 ≤ c.val ∧ c.val ≤ 57)) ∨ c = '_' := by
    change (((decide (c.val ≥ 65 ∧ c.val ≤ 90) ||
      (decide (c.val ≥ 97) && decide (c.val ≤ 122))) ||
      (decide (c.val ≥ 48) && decide (c.val ≤ 57))) || decide (c = '_')) = true at h
    simpa using h
  simp only [UInt32.le_iff_toNat_le] at hchar
  change (((65 ≤ c.toNat ∧ c.toNat ≤ 90) ∨ (97 ≤ c.toNat ∧ c.toNat ≤ 122)) ∨
    (48 ≤ c.toNat ∧ c.toNat ≤ 57)) ∨ c = '_' at hchar
  rcases hchar with ((hupper | hlower) | hdigit) | rfl
  · omega
  · omega
  · omega
  · decide

theorem isBlank_of_isNameChar (h : isNameChar c = true) : Text.isBlank c = false := by
  obtain ⟨hl, hu⟩ := toNat_of_isNameChar h
  exact Text.isBlank_of_visible (by omega) (by omega)

theorem isBlank_of_isNameStart (h : isNameStart c = true) : Text.isBlank c = false :=
  isBlank_of_isNameChar (isNameChar_of_isNameStart h)

theorem IsName.exists_cons (h : IsName name) : ∃ c cs, name.toList = c :: cs ∧
    isNameStart c = true ∧ ∀ d ∈ cs, isNameChar d = true := by
  obtain ⟨hfirst, hall⟩ := h
  cases hname : name.toList with
  | nil => simp [hname] at hfirst
  | cons c cs =>
    rw [hname] at hfirst hall
    have hcs := List.all_eq_true.mp hall
    exact ⟨c, cs, rfl, hfirst, fun d hd => hcs d (List.mem_cons_of_mem _ hd)⟩

theorem IsName.isNameChar (h : IsName name) (hc : c ∈ name.toList) : isNameChar c = true :=
  List.all_eq_true.mp h.2 c hc

theorem skipBlanks_of_isBlank (h : Text.isBlank c = true) (cs : List Char) :
    skipBlanks (c :: cs) = skipBlanks cs := by
  simp [skipBlanks, h]

theorem skipBlanks_space (cs : List Char) : skipBlanks (' ' :: cs) = skipBlanks cs :=
  skipBlanks_of_isBlank (by decide) cs

theorem skipBlanks_of_not_isBlank (h : Text.isBlank c = false) (cs : List Char) :
    skipBlanks (c :: cs) = c :: cs := by
  simp [skipBlanks, h]

theorem IsName.skipBlanks_append (h : IsName name) (rest : List Char) :
    skipBlanks (name.toList ++ rest) = name.toList ++ rest := by
  obtain ⟨c, cs, hname, hc, -⟩ := h.exists_cons
  rw [hname, List.cons_append]
  exact skipBlanks_of_not_isBlank (isBlank_of_isNameStart hc) _

theorem keyword?_blank (word : String) (h : Text.isBlank c = true) (rest : List Char) :
    keyword? word (word.toList ++ c :: rest) = some (skipBlanks rest) := by
  have hblanks : ((c :: rest).takeWhile Text.isBlank).length ≠ 0 := by simp [h]
  have hguard : guard (((c :: rest).takeWhile Text.isBlank).length ≠ 0) = some () :=
    if_pos hblanks
  unfold keyword?
  rw [Text.dropFront?_append]
  show (guard (((c :: rest).takeWhile Text.isBlank).length ≠ 0) : Option Unit).bind
    (fun _ => some (skipBlanks (c :: rest))) = some (skipBlanks rest)
  rw [hguard, Option.bind_some, skipBlanks_of_isBlank h]

theorem keyword?_append (word : String) (rest : List Char) :
    keyword? word (word.toList ++ ' ' :: rest) = some (skipBlanks rest) :=
  keyword?_blank word (by decide) rest

theorem name?_append (h : IsName name) (hrest : ∀ c ∈ rest.head?, isNameChar c = false) :
    name? (name.toList ++ rest) = some (name, rest) := by
  obtain ⟨c, cs, hname, hc, hcs⟩ := h.exists_cons
  have hwhole : String.ofList (c :: cs) = name := by rw [← hname, String.ofList_toList]
  rw [hname, List.cons_append, name?, if_pos hc, Text.takeWhile_run hcs hrest,
    Text.dropWhile_run hcs hrest, hwhole]

theorem name?_sound (h : name? cs = some (name, rest)) :
    IsName name ∧ cs = name.toList ++ rest := by
  cases cs with
  | nil => cases h
  | cons c cs =>
    by_cases hstart : isNameStart c = true
    · rw [name?, if_pos hstart] at h
      cases h
      have hname : (String.ofList (c :: cs.takeWhile isNameChar)).toList =
          c :: cs.takeWhile isNameChar := String.toList_ofList
      refine ⟨⟨?_, ?_⟩, ?_⟩
      · rw [hname]
        exact hstart
      · rw [hname, List.all_cons, isNameChar_of_isNameStart hstart, List.all_takeWhile]
        rfl
      · rw [hname, List.cons_append, List.takeWhile_append_dropWhile]
    · rw [name?, if_neg hstart] at h
      cases h

theorem name?_eq_none (h : isNameStart c = false) (cs : List Char) : name? (c :: cs) = none := by
  rw [name?, if_neg (by simp [h])]

theorem sign?_append (sign : String) {first : Char} {more : List Char}
    (hsign : sign.toList = first :: more) (hfirst : Text.isBlank first = false) (rest : List Char) :
    sign? sign (' ' :: (sign.toList ++ ' ' :: rest)) = some (skipBlanks rest) := by
  have hskip : skipBlanks (' ' :: (sign.toList ++ ' ' :: rest)) = sign.toList ++ ' ' :: rest := by
    rw [skipBlanks_space, hsign, List.cons_append, skipBlanks_of_not_isBlank hfirst]
  rw [sign?, hskip, Text.dropFront?_append, Option.map_some, skipBlanks_space]

theorem sign?_eq_none (sign : String) {first : Char} {more : List Char}
    (hsign : sign.toList = first :: more) (h : (skipBlanks cs).head? ≠ some first) :
    sign? sign cs = none := by
  cases hcs : skipBlanks cs with
  | nil => simp [sign?, hcs, hsign, Text.dropFront?]
  | cons d rest =>
    have hne : first ≠ d := by
      rintro rfl
      exact h (by rw [hcs]; rfl)
    rw [sign?, hcs, hsign, Text.dropFront?_cons_of_ne hne]
    rfl

theorem before?_append {stop : Char} {text : List Char} (h : stop ∉ text) (rest : List Char) :
    before? stop (text ++ stop :: rest) = some (text, rest) := by
  induction text with
  | nil => simp [before?]
  | cons c text ih =>
    rw [List.mem_cons, not_or] at h
    rw [List.cons_append, before?, if_neg (Ne.symm h.1), ih h.2]
    rfl

theorem before?_sound {stop : Char} {text : List Char}
    (h : before? stop cs = some (text, rest)) :
    stop ∉ text ∧ cs = text ++ stop :: rest := by
  induction cs generalizing text with
  | nil => cases h
  | cons c cs ih =>
    by_cases hc : c = stop
    · subst hc
      rw [before?, if_pos rfl] at h
      cases h
      exact ⟨List.not_mem_nil, rfl⟩
    · rw [before?, if_neg hc] at h
      obtain ⟨p, hp, heq⟩ := Option.map_eq_some_iff.mp h
      cases heq
      obtain ⟨hstop, hcs⟩ := ih hp
      refine ⟨?_, by rw [List.cons_append, ← hcs]⟩
      rw [List.mem_cons, not_or]
      exact ⟨Ne.symm hc, hstop⟩

theorem qualifiedName?_append (h : IsName name) (hrest : ∀ c ∈ rest.head?, isNameChar c = false)
    (hpoint : rest.head? ≠ some '.') :
    qualifiedName? (name.toList ++ rest) = some (name, rest) := by
  have hstop (fuel : Nat) : qualifiedName?.more fuel name rest = (name, rest) := by
    cases fuel with
    | zero => rfl
    | succ fuel =>
      unfold qualifiedName?.more
      split
      next => exact absurd rfl hpoint
      next => rfl
  simp [qualifiedName?, name?_append h hrest, hstop]

end Program

end TreeFacts
