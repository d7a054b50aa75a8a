namespace TreeFacts.Text

/-- Text in UTF-8. -/
def bytes (cs : List Char) : List UInt8 := cs.flatMap String.utf8EncodeChar

/-- The text in front of a byte offset and the text behind it. An offset inside a character or
beyond the end splits nothing. -/
def splitBytes? : Nat → List Char → Option (List Char × List Char)
  | 0, cs => some ([], cs)
  | _ + 1, [] => none
  | n + 1, c :: cs =>
    if c.utf8Size ≤ n + 1 then
      (splitBytes? (n + 1 - c.utf8Size) cs).map fun (front, rest) => (c :: front, rest)
    else none

/-- The text between two byte offsets. -/
def slice? (cs : List Char) (start stop : Nat) : Option (List Char) := do
  let (front, _) ← splitBytes? stop cs
  let (_, found) ← splitBytes? start front
  return found

/-- The text from a byte offset on. -/
def sliceFrom? (cs : List Char) (start : Nat) : Option (List Char) :=
  (splitBytes? start cs).map (·.2)

/-- The bytes of a text from an offset on, which may be inside a character. -/
def bytesFrom? (cs : List Char) (start : Nat) : Option (List UInt8) :=
  if start ≤ (bytes cs).length then some ((bytes cs).drop start) else none

/-- What a leading byte of more than one byte promises: its own bits, and the range of each byte
after it. -/
def leadingByte? (b : Nat) : Option (Nat × List (Nat × Nat)) :=
  let tail := (0x80, 0xBF)
  if b < 0xC2 then none
  else if b ≤ 0xDF then some (b - 0xC0, [tail])
  else if b = 0xE0 then some (0, [(0xA0, 0xBF), tail])
  else if b = 0xED then some (0xD, [(0x80, 0x9F), tail])
  else if b ≤ 0xEF then some (b - 0xE0, [tail, tail])
  else if b = 0xF0 then some (0, [(0x90, 0xBF), tail, tail])
  else if b ≤ 0xF3 then some (b - 0xF0, [tail, tail, tail])
  else if b = 0xF4 then some (4, [(0x80, 0x8F), tail, tail])
  else none

/-- Reads one byte per range as long as each lies in its range; the code point is present if all
did. -/
def continuation : List (Nat × Nat) → Nat → List UInt8 → Option Nat × List UInt8
  | [], code, bytes => (some code, bytes)
  | _ :: _, _, [] => (none, [])
  | (lo, hi) :: ranges, code, b :: bytes =>
    if lo ≤ b.toNat ∧ b.toNat ≤ hi then continuation ranges (64 * code + b.toNat % 64) bytes
    else (none, b :: bytes)

theorem continuation_length_le (ranges : List (Nat × Nat)) (code : Nat) (bytes : List UInt8) :
    (continuation ranges code bytes).2.length ≤ bytes.length := by
  induction ranges generalizing code bytes with
  | nil => simp [continuation]
  | cons r ranges ih =>
    cases bytes with
    | nil => simp [continuation]
    | cons b bytes =>
      obtain ⟨lo, hi⟩ := r
      simp only [continuation]
      split
      · exact Nat.le_succ_of_le (ih _ _)
      · simp

/-- UTF-8 text in which every longest run of bytes that starts a character but does not finish it,
and every byte that starts none, stands as one replacement character. -/
def decodeLossy : List UInt8 → List Char
  | [] => []
  | b :: bytes =>
    if b.toNat < 0x80 then Char.ofNat b.toNat :: decodeLossy bytes
    else match leadingByte? b.toNat with
      | none => '\uFFFD' :: decodeLossy bytes
      | some (code, ranges) =>
        ((continuation ranges code bytes).1.map Char.ofNat).getD '\uFFFD' ::
          decodeLossy (continuation ranges code bytes).2
  termination_by bytes => bytes.length
  decreasing_by
    · simp
    · simp
    · exact Nat.lt_succ_of_le (continuation_length_le _ _ _)

/-- Text as bytes, read strictly: every byte must belong to a character. -/
def decode? (bytes : ByteArray) : Option String := String.fromUTF8? bytes

end TreeFacts.Text
