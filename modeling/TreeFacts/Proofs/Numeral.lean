import TreeFacts.Fact.Reader

namespace TreeFacts

namespace Text

theorem digitsValue?_toDigits (n : Nat) : digitsValue? (Nat.toDigits 10 n) = some n := by
  have hne : (Nat.toDigits 10 n).isEmpty = false := by simp
  have hall : (Nat.toDigits 10 n).all Char.isDigit = true :=
    List.all_eq_true.mpr fun c hc => Nat.isDigit_of_mem_toDigits (by decide) (by decide) hc
  have hvalue := Nat.ofDigitChars_ten_toDigits (n := n)
  rw [Nat.ofDigitChars_eq_foldl] at hvalue
  simp only [digitsValue?, hne, hall, Bool.not_false, Bool.and_true, ↓reduceIte, hvalue]

/-- An integer is written as its digits, behind a minus sign if it is negative. -/
theorem toList_toString_int (n : Int) :
    (toString n).toList = (if n < 0 then ['-'] else []) ++ Nat.toDigits 10 n.natAbs := by
  rw [Int.toString_eq_repr, Int.repr_eq_if]
  split
  next h =>
    have hn : ¬n < 0 := by omega
    have habs : n.toNat = n.natAbs := by omega
    simp [hn, habs, Nat.toList_repr]
  next h =>
    have hn : n < 0 := by omega
    have habs : (-n).toNat = n.natAbs := by omega
    simp [hn, habs, Nat.toList_repr]

theorem readInt?_toDigits (n : Nat) : readInt? (Nat.toDigits 10 n) = some (n : Int) := by
  obtain ⟨c, cs, hc⟩ := List.exists_cons_of_ne_nil (Nat.toDigits_ne_nil (n := n) (b := 10))
  have hdigit : c.isDigit = true :=
    Nat.isDigit_of_mem_toDigits (by decide) (by decide) (hc ▸ List.mem_cons_self)
  have hminus : c ≠ '-' := by rintro rfl; exact absurd hdigit (by decide)
  have hplus : c ≠ '+' := by rintro rfl; exact absurd hdigit (by decide)
  have hvalue := digitsValue?_toDigits n
  rw [hc] at hvalue ⊢
  unfold readInt?
  split
  next h => exact absurd (List.cons.inj h).1 hminus
  next h => exact absurd (List.cons.inj h).1 hplus
  next => rw [hvalue]; rfl

theorem readInt?_toString (n : Int) : readInt? (toString n).toList = some n := by
  rw [toList_toString_int]
  split
  next h =>
    have habs : -(n.natAbs : Int) = n := by omega
    rw [List.singleton_append, readInt?, digitsValue?_toDigits]
    exact congrArg some habs
  next h =>
    have habs : (n.natAbs : Int) = n := by omega
    rw [List.nil_append, readInt?_toDigits, habs]

theorem int64?_toInt (n : Int64) : int64? n.toInt = some n := by
  have hmin := n.minValue_le_toInt
  have hmax := n.toInt_le
  simp only [int64?, hmin, hmax, decide_true, Bool.and_true, ↓reduceIte, Int64.ofInt_toInt]

theorem toInt_of_int64? {m : Int} {n : Int64} (h : int64? m = some n) : n.toInt = m := by
  unfold int64? at h
  split at h
  next hrange =>
    cases h
    obtain ⟨hlow, hhigh⟩ := Bool.and_eq_true_iff.mp hrange
    have hmin : Int64.minValue.toInt = -2 ^ 63 := by decide
    have hmax : Int64.maxValue.toInt = 2 ^ 63 - 1 := by decide
    have hlow := of_decide_eq_true hlow
    have hhigh := of_decide_eq_true hhigh
    exact Int64.toInt_ofInt_of_le (by omega) (by omega)
  next => cases h

theorem readInt64?_showInt64 (n : Int64) : readInt64? (showInt64 n).toList = some n := by
  simp only [readInt64?, showInt64, readInt?_toString, Option.bind_some, int64?_toInt]

end Text

namespace FactValue

theorem isNumeralChar_of_mem_showInt64 {n : Int64} {c : Char}
    (h : c ∈ (Text.showInt64 n).toList) : isNumeralChar c = true := by
  rw [Text.showInt64, Text.toList_toString_int, List.mem_append] at h
  rcases h with hsign | hdigit
  · split at hsign
    · have hc : c = '-' := by simpa using hsign
      simp [isNumeralChar, hc]
    · simp at hsign
  · have hc := Nat.isDigit_of_mem_toDigits (by decide) (by decide) hdigit
    simp [isNumeralChar, hc]

theorem parseNumber_showInt64 (n : Int64) :
    parseNumber (Text.showInt64 n).toList = .ok (number n) := by
  simp only [parseNumber, Text.readInt64?_showInt64]

end FactValue

end TreeFacts
