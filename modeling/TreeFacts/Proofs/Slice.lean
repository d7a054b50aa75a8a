import Mathlib.Data.List.Basic
import TreeFacts.Text.Utf8

namespace TreeFacts.Text

variable {cs front found rest : List Char} {start stop : Nat}

@[simp] theorem bytes_nil : bytes [] = [] := rfl

@[simp] theorem bytes_cons (c : Char) (cs : List Char) :
    bytes (c :: cs) = String.utf8EncodeChar c ++ bytes cs := List.flatMap_cons

@[simp] theorem bytes_append (front rest : List Char) :
    bytes (front ++ rest) = bytes front ++ bytes rest := List.flatMap_append

/-- Up to the last code point of one byte a character is that byte; no byte of any other character
is as low as that. -/
theorem encode_cases (c : Char) :
    (c.toNat < 0x80 ∧ String.utf8EncodeChar c = [UInt8.ofNat c.toNat]) ∨
      (0x80 ≤ c.toNat ∧ ∀ b ∈ String.utf8EncodeChar c, 0x80 ≤ b.toNat) := by
  have hvalue : c.val.toNat = c.toNat := rfl
  unfold String.utf8EncodeChar
  rw [hvalue]
  by_cases hlow : c.toNat ≤ 127
  · rw [if_pos hlow]
    exact Or.inl ⟨by omega, rfl⟩
  · refine Or.inr ⟨by omega, fun b hb => ?_⟩
    rw [if_neg hlow] at hb
    split at hb
    · simp only [List.mem_cons, List.not_mem_nil, or_false] at hb
      rcases hb with rfl | rfl <;> simp only [UInt8.toNat_ofNat'] <;> omega
    · split at hb
      · simp only [List.mem_cons, List.not_mem_nil, or_false] at hb
        rcases hb with rfl | rfl | rfl <;> simp only [UInt8.toNat_ofNat'] <;> omega
      · simp only [List.mem_cons, List.not_mem_nil, or_false] at hb
        rcases hb with rfl | rfl | rfl | rfl <;> simp only [UInt8.toNat_ofNat'] <;> omega

theorem length_bytes_concat {c : Char} (hc : c.utf8Size = 1) (cs : List Char) :
    (bytes (cs ++ [c])).length = (bytes cs).length + 1 := by
  rw [bytes_append, List.length_append, bytes_cons, bytes_nil, List.append_nil,
    String.length_utf8EncodeChar, hc]

theorem splitBytes?_append (front rest : List Char) :
    splitBytes? (bytes front).length (front ++ rest) = some (front, rest) := by
  induction front with
  | nil => rw [bytes_nil, List.length_nil, splitBytes?, List.nil_append]
  | cons c front ih =>
    have hpos := c.utf8Size_pos
    obtain ⟨n, hn⟩ : ∃ n, (bytes (c :: front)).length = n + 1 :=
      ⟨(bytes (c :: front)).length - 1, by simp; omega⟩
    have hlength : n + 1 = c.utf8Size + (bytes front).length := by
      rw [← hn, bytes_cons, List.length_append, String.length_utf8EncodeChar]
    have hrest : n + 1 - c.utf8Size = (bytes front).length := by omega
    rw [hn, List.cons_append, splitBytes?, if_pos (by omega), hrest, ih]
    rfl

theorem splitBytes?_eq_some :
    splitBytes? start cs = some (front, rest) ↔
      cs = front ++ rest ∧ (bytes front).length = start := by
  constructor
  · intro h
    induction cs generalizing start front with
    | nil =>
      cases start with
      | zero =>
        cases h
        exact ⟨rfl, rfl⟩
      | succ n => cases h
    | cons c cs ih =>
      cases start with
      | zero =>
        cases h
        exact ⟨rfl, rfl⟩
      | succ n =>
        rw [splitBytes?] at h
        by_cases hsize : c.utf8Size ≤ n + 1
        · rw [if_pos hsize] at h
          obtain ⟨p, hp, heq⟩ := Option.map_eq_some_iff.mp h
          cases heq
          obtain ⟨hcs, hlength⟩ := ih hp
          refine ⟨by rw [List.cons_append, ← hcs], ?_⟩
          rw [bytes_cons, List.length_append, String.length_utf8EncodeChar, hlength]
          omega
        · rw [if_neg hsize] at h
          cases h
  · rintro ⟨rfl, rfl⟩
    exact splitBytes?_append front rest

theorem slice?_eq_some : slice? cs start stop = some found ↔
    ∃ front rest, cs = front ++ found ++ rest ∧ (bytes front).length = start ∧
      (bytes (front ++ found)).length = stop := by
  constructor
  · intro h
    obtain ⟨⟨whole, rest⟩, hwhole, h⟩ := Option.bind_eq_some_iff.mp h
    obtain ⟨⟨front, found'⟩, hfront, h⟩ := Option.bind_eq_some_iff.mp h
    cases h
    obtain ⟨hcs, hstop⟩ := splitBytes?_eq_some.mp hwhole
    obtain ⟨rfl, hstart⟩ := splitBytes?_eq_some.mp hfront
    exact ⟨front, rest, hcs, hstart, hstop⟩
  · rintro ⟨front, rest, rfl, rfl, rfl⟩
    unfold slice?
    rw [splitBytes?_append]
    show ((splitBytes? (bytes front).length (front ++ found)).bind fun p => some p.2) = some found
    rw [splitBytes?_append]
    rfl

example : slice? ['a', 'é', 'b'] 1 3 = some ['é'] ∧ slice? ['a', 'é', 'b'] 1 2 = none := by decide

theorem sliceFrom?_append (front rest : List Char) :
    sliceFrom? (front ++ rest) (bytes front).length = some rest := by
  rw [sliceFrom?, splitBytes?_append]
  rfl

theorem bytesFrom?_append (front rest : List Char) :
    bytesFrom? (front ++ rest) (bytes front).length = some (bytes rest) := by
  rw [bytesFrom?, bytes_append, if_pos (by simp), List.drop_left]

end TreeFacts.Text
