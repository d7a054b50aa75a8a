import TreeFacts.Json.Printer
import TreeFacts.Json.Reader
import TreeFacts.Proofs.Numeral
import TreeFacts.Proofs.Runs

namespace TreeFacts.Json

theorem hexDigit?_digitChar : ∀ n < 16, hexDigit? (Nat.digitChar n) = some n := by decide

theorem hex4_of_control : ∀ n < 0x20,
    hex4 n = ['0', '0', Nat.digitChar (n / 16), Nat.digitChar (n % 16)] := by decide

/-- A character is written as itself, behind a backslash as one letter, or as its code. -/
theorem escape_cases (c : Char) :
    (escape c = [c] ∧ c ≠ '"' ∧ c ≠ '\\' ∧ ¬c.toNat < 0x20) ∨
    (∃ e, escape c = ['\\', e] ∧ simpleEscape? e = some c) ∨
    (c.toNat < 0x20 ∧ escape c =
      ['\\', 'u', '0', '0', Nat.digitChar (c.toNat / 16), Nat.digitChar (c.toNat % 16)]) := by
  unfold escape
  split
  next h => exact .inr (.inl ⟨'"', rfl, congrArg some h.symm⟩)
  next hquote =>
  split
  next h => exact .inr (.inl ⟨'\\', rfl, congrArg some h.symm⟩)
  next hback =>
  split
  next h => exact .inr (.inl ⟨'n', rfl, congrArg some h.symm⟩)
  split
  next h => exact .inr (.inl ⟨'r', rfl, congrArg some h.symm⟩)
  split
  next h => exact .inr (.inl ⟨'t', rfl, congrArg some h.symm⟩)
  split
  next h => exact .inr (.inl ⟨'b', rfl, congrArg some h.symm⟩)
  split
  next h => exact .inr (.inl ⟨'f', rfl, congrArg some h.symm⟩)
  split
  next h => exact .inr (.inr ⟨h, by rw [hex4_of_control _ h]; rfl⟩)
  next h => exact .inl ⟨rfl, hquote, hback, h⟩

theorem splitString_cons {c : Char} (hquote : c ≠ '"') (hback : c ≠ '\\')
    (hcontrol : ¬c.toNat < 0x20) (rest : List Char) :
    splitString (c :: rest) = (splitString rest).map fun (raw, rest) => (c :: raw, rest) := by
  rw [splitString.eq_def]
  split
  next h => simp at h
  next h => exact absurd (List.cons.inj h).1 hquote
  next h => exact absurd (List.cons.inj h).1 hback
  next h =>
    obtain ⟨rfl, rfl⟩ := List.cons.inj h
    exact if_neg hcontrol

theorem splitString_digitChar {n : Nat} (h : n < 16) (rest : List Char) :
    splitString (Nat.digitChar n :: rest) =
      (splitString rest).map fun (raw, rest) => (Nat.digitChar n :: raw, rest) := by
  have hplain : ∀ n < 16, Nat.digitChar n ≠ '"' ∧ Nat.digitChar n ≠ '\\' ∧
      ¬(Nat.digitChar n).toNat < 0x20 := by decide
  obtain ⟨hquote, hback, hcontrol⟩ := hplain n h
  exact splitString_cons hquote hback hcontrol rest

theorem splitString_escape (c : Char) (rest : List Char) :
    splitString (escape c ++ rest) =
      (splitString rest).map fun (raw, rest) => (escape c ++ raw, rest) := by
  rcases escape_cases c with ⟨h, hquote, hback, hcontrol⟩ | ⟨e, h, -⟩ | ⟨hcontrol, h⟩
  · rw [h]
    exact splitString_cons hquote hback hcontrol rest
  · rw [h]
    rfl
  · have hzero (cs : List Char) : splitString ('0' :: cs) =
        (splitString cs).map fun (raw, rest) => ('0' :: raw, rest) :=
      splitString_digitChar (n := 0) (by decide) cs
    have hhigh := splitString_digitChar (n := c.toNat / 16) (by omega)
    have hlow := splitString_digitChar (n := c.toNat % 16) (by omega)
    have hu (cs : List Char) : splitString ('\\' :: 'u' :: cs) =
        (splitString cs).map fun (raw, rest) => ('\\' :: 'u' :: raw, rest) := rfl
    simp only [h, List.cons_append, List.nil_append, hu, hzero, hhigh, hlow, Option.map_map]
    rfl

theorem splitString_flatMap_escape (s rest : List Char) :
    splitString (s.flatMap escape ++ '"' :: rest) = some (s.flatMap escape, rest) := by
  induction s with
  | nil => rfl
  | cons c s ih =>
    rw [List.flatMap_cons, List.append_assoc, splitString_escape, ih]
    rfl

theorem joinPieces?_code {c : Char} (h : c.toNat < 0x20) (pieces : List Piece) :
    joinPieces? (.code c.toNat :: pieces) = (joinPieces? pieces).map (c :: ·) := by
  have hhigh : isHighSurrogate c.toNat = false := by
    simp only [isHighSurrogate, Bool.and_eq_false_iff, decide_eq_false_iff_not]
    omega
  have hlow : isLowSurrogate c.toNat = false := by
    simp only [isLowSurrogate, Bool.and_eq_false_iff, decide_eq_false_iff_not]
    omega
  rw [joinPieces?.eq_def (.code c.toNat :: pieces)]
  simp only [hhigh, hlow, Bool.false_eq_true, ↓reduceIte, Char.ofNat_toNat]

theorem joinPieces?_bind_cons {p : Piece} {c : Char}
    (h : ∀ pieces, joinPieces? (p :: pieces) = (joinPieces? pieces).map (c :: ·))
    (pieces : Option (List Piece)) :
    (pieces.bind fun pieces => some (p :: pieces)).bind joinPieces? =
      (pieces.bind joinPieces?).map (c :: ·) := by
  cases pieces with
  | none => rfl
  | some pieces => exact h pieces

theorem pieces?_plain {c : Char} (hback : c ≠ '\\') (cs : List Char) :
    pieces? (c :: cs) = (pieces? cs).bind fun pieces => some (.char c :: pieces) := by
  rw [pieces?.eq_def]
  split
  next h => simp at h
  next h => exact absurd (List.cons.inj h).1 hback
  next h => exact absurd (List.cons.inj h).1 hback
  next h =>
    obtain ⟨rfl, rfl⟩ := List.cons.inj h
    rfl

theorem pieces?_letter {c e : Char} (he : simpleEscape? e = some c) (cs : List Char) :
    pieces? ('\\' :: e :: cs) = (pieces? cs).bind fun pieces => some (.char c :: pieces) := by
  have hu : e ≠ 'u' := by
    rintro rfl
    cases he
  rw [pieces?.eq_def]
  split
  next h => simp at h
  next h => exact absurd (List.cons.inj (List.cons.inj h).2).1 hu
  next h =>
    obtain ⟨rfl, rfl⟩ := List.cons.inj (List.cons.inj h).2
    rw [he]
    rfl
  next hnot h =>
    obtain ⟨rfl, rfl⟩ := List.cons.inj h
    exact absurd rfl (hnot e cs rfl)

theorem pieces?_code {n : Nat} (hn : n < 0x20) (cs : List Char) :
    pieces? (['\\', 'u', '0', '0', Nat.digitChar (n / 16), Nat.digitChar (n % 16)] ++ cs) =
      (pieces? cs).bind fun pieces => some (.code n :: pieces) := by
  have hcode : ((0 * 16 + 0) * 16 + n / 16) * 16 + n % 16 = n := by omega
  have hzero : hexDigit? '0' = some 0 := rfl
  have hhigh := hexDigit?_digitChar (n / 16) (by omega)
  have hlow := hexDigit?_digitChar (n % 16) (by omega)
  simp only [List.cons_append, List.nil_append, pieces?, hzero, hhigh, hlow, Option.bind_eq_bind,
    Option.bind_some, hcode]
  rfl

theorem pieces?_escape (c : Char) (cs : List Char) :
    (pieces? (escape c ++ cs)).bind joinPieces? =
      ((pieces? cs).bind joinPieces?).map (c :: ·) := by
  rcases escape_cases c with ⟨h, -, hback, -⟩ | ⟨e, h, he⟩ | ⟨hcontrol, h⟩
  · rw [h, List.singleton_append, pieces?_plain hback, joinPieces?_bind_cons fun _ => rfl]
  · have hpieces := congrArg (·.bind joinPieces?) (pieces?_letter he cs)
    rw [h]
    exact hpieces.trans (joinPieces?_bind_cons (fun _ => rfl) _)
  · rw [h, pieces?_code hcontrol, joinPieces?_bind_cons (joinPieces?_code hcontrol)]

theorem pieces?_flatMap_escape (s : List Char) :
    (pieces? (s.flatMap escape)).bind joinPieces? = some s := by
  induction s with
  | nil => rfl
  | cons c s ih => rw [List.flatMap_cons, pieces?_escape, ih, Option.map_some]

theorem stringText?_escape (s : String) : stringText? (s.toList.flatMap escape) = some s := by
  rw [stringText?, pieces?_flatMap_escape, Option.map_some, String.ofList_toList]

/-- What may stand behind a value inside a document. -/
def isValueEnd (c : Char) : Bool := c = ',' || c = ']' || c = '\x7d'

theorem isValueEnd_cases {c : Char} (h : isValueEnd c = true) : c = ',' ∨ c = ']' ∨ c = '\x7d' := by
  simpa [isValueEnd, or_assoc] using h

theorem isDigit_of_isValueEnd {c : Char} (h : isValueEnd c = true) : c.isDigit = false := by
  rcases isValueEnd_cases h with rfl | rfl | rfl <;> decide

theorem fraction?_of_stopsAt {rest : List Char} (h : Text.StopsAt isValueEnd rest) :
    fraction? rest = some (false, rest) := by
  obtain rfl | ⟨c, cs, rfl, hc⟩ := h.cases
  · rfl
  · rcases isValueEnd_cases hc with rfl | rfl | rfl <;> rfl

theorem exponent?_of_stopsAt {rest : List Char} (h : Text.StopsAt isValueEnd rest) :
    exponent? rest = some (false, rest) := by
  obtain rfl | ⟨c, cs, rfl, hc⟩ := h.cases
  · rfl
  · rcases isValueEnd_cases hc with rfl | rfl | rfl <;> rfl

theorem head?_toDigits {n : Nat} (h : n ≠ 0) : (Nat.toDigits 10 n).head? ≠ some '0' := by
  induction n using Nat.strongRecOn with
  | ind n ih =>
    by_cases hn : n < 10
    · simpa [Nat.toDigits_of_lt_base hn] using h
    · rw [Nat.toDigits_of_base_le (by decide) (by omega),
        List.head?_append, List.head?_eq_some_head Nat.toDigits_ne_nil, Option.some_or,
        ← List.head?_eq_some_head]
      exact ih (n / 10) (by omega) (by omega)

theorem toDigits_append_ne_minus (n : Nat) (rest tail : List Char) :
    Nat.toDigits 10 n ++ rest ≠ '-' :: tail := by
  intro heq
  obtain ⟨c, ds, hc⟩ := List.exists_cons_of_ne_nil (Nat.toDigits_ne_nil (n := n) (b := 10))
  have hdigit : c.isDigit = true :=
    Nat.isDigit_of_mem_toDigits (by decide) (by decide) (hc ▸ List.mem_cons_self)
  rw [hc, List.cons_append] at heq
  rw [(List.cons.inj heq).1] at hdigit
  exact absurd hdigit (by decide)

/-- Digits are a number, as are digits behind a minus sign that are not zero. -/
theorem number?_digits {cs : List Char} {negative : Bool} {n : Nat} {rest : List Char}
    (hcs : cs = Nat.toDigits 10 n ++ rest ∧ negative = false ∨
      cs = '-' :: (Nat.toDigits 10 n ++ rest) ∧ negative = true ∧ n ≠ 0)
    (h : Text.StopsAt isValueEnd rest) :
    number? cs = some (int (if negative then -(n : Int) else n), rest) := by
  have hdigits : ∀ c ∈ Nat.toDigits 10 n, c.isDigit = true :=
    fun c hc => Nat.isDigit_of_mem_toDigits (by decide) (by decide) hc
  have htake := h.takeWhile_append (fun _ => isDigit_of_isValueEnd) hdigits
  have hdrop := h.dropWhile_append (fun _ => isDigit_of_isValueEnd) hdigits
  have hsome : (Nat.toDigits 10 n).isEmpty = false := by simp
  have hzero : ¬((Nat.toDigits 10 n).head? = some '0' ∧ (Nat.toDigits 10 n).length ≠ 1) := by
    rintro ⟨hhead, hlength⟩
    by_cases hn : n = 0
    · subst hn
      exact hlength rfl
    · exact head?_toDigits hn hhead
  have hvalue := Nat.ofDigitChars_ten_toDigits (n := n)
  rw [Nat.ofDigitChars_eq_foldl] at hvalue
  have hint : (false || false || negative && n == 0) = false := by
    rcases hcs with ⟨-, rfl⟩ | ⟨-, rfl, hn⟩
    · rfl
    · simpa using hn
  unfold number?
  split
  next sign digits heq =>
    have hsign : sign = negative ∧ digits = Nat.toDigits 10 n ++ rest := by
      rcases hcs with ⟨rfl, rfl⟩ | ⟨rfl, rfl, -⟩
      · split at heq
        next hminus => exact absurd hminus (toDigits_append_ne_minus n rest _)
        next =>
          cases heq
          exact ⟨rfl, rfl⟩
      · cases heq
        exact ⟨rfl, rfl⟩
    obtain ⟨rfl, rfl⟩ := hsign
    simp only [htake, hdrop, hsome, hzero, Bool.false_eq_true, or_self, ↓reduceIte,
      fraction?_of_stopsAt h, exponent?_of_stopsAt h, hvalue, hint, Option.bind_eq_bind,
      Option.bind_some]
    rfl

theorem number?_toString (n : Int) {rest : List Char} (h : Text.StopsAt isValueEnd rest) :
    number? ((toString n).toList ++ rest) = some (int n, rest) := by
  rw [Text.toList_toString_int]
  split
  next hn =>
    have hread := number?_digits (.inr ⟨rfl, rfl, by omega⟩) h (n := n.natAbs)
    have habs : -(n.natAbs : Int) = n := by omega
    rwa [if_pos rfl, habs] at hread
  next hn =>
    have hread := number?_digits (.inl ⟨rfl, rfl⟩) h (n := n.natAbs)
    have habs : (n.natAbs : Int) = n := by omega
    rwa [if_neg Bool.false_ne_true, habs] at hread

theorem number?_real {rest : List Char} (h : Text.StopsAt isValueEnd rest) :
    number? ('0' :: '.' :: '0' :: rest) = some (real, rest) := by
  have hdrop : ('0' :: rest).dropWhile Char.isDigit = rest :=
    h.dropWhile_append (fun _ => isDigit_of_isValueEnd) (by simp : ∀ c ∈ ['0'], c.isDigit = true)
  have hfraction : fraction? ('.' :: '0' :: rest) = some (true, rest) := by
    simp only [fraction?, hdrop]
    rfl
  have hfront : ('0' :: '.' :: '0' :: rest).takeWhile Char.isDigit = ['0'] := rfl
  have hbehind : ('0' :: '.' :: '0' :: rest).dropWhile Char.isDigit = '.' :: '0' :: rest := rfl
  unfold number?
  split
  next heq =>
    cases heq
    simp only [hfront, hbehind, hfraction, exponent?_of_stopsAt h, Option.bind_eq_bind,
      Option.bind_some]
    rfl

end TreeFacts.Json
