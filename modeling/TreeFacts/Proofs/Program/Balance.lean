import TreeFacts.Program.Offset
import TreeFacts.Proofs.Program.Cutting
import TreeFacts.Proofs.Slice

namespace TreeFacts.Program

/-- What may stand between two quotes. A backslash takes the character behind it along. -/
inductive Quoted : List Char → Prop where
  | nil : Quoted []
  | char {c : Char} {cs : List Char} (hquote : c ≠ '"') (hbackslash : c ≠ '\\') (h : Quoted cs) :
    Quoted (c :: cs)
  | escape {c : Char} {cs : List Char} (h : Quoted cs) : Quoted ('\\' :: c :: cs)

/-- Text in which every string is closed and every brace outside of strings belongs to a pair. -/
inductive Balanced : List Char → Prop where
  | nil : Balanced []
  | char {c : Char} {cs : List Char} (hquote : c ≠ '"') (hopen : c ≠ '\x7b') (hclose : c ≠ '\x7d')
    (h : Balanced cs) : Balanced (c :: cs)
  | string {text cs : List Char} (htext : Quoted text) (h : Balanced cs) :
    Balanced ('"' :: text ++ '"' :: cs)
  | block {body cs : List Char} (hbody : Balanced body) (h : Balanced cs) :
    Balanced ('\x7b' :: body ++ '\x7d' :: cs)

variable {depth : Nat} {c : Char} {cs text body front rest : List Char}

theorem body?_quote : body? .outside depth ('"' :: cs) =
    (body? .inside depth cs).map fun p => ('"' :: p.1, p.2) := rfl

theorem body?_open : body? .outside depth ('\x7b' :: cs) =
    (body? .outside (depth + 1) cs).map fun p => ('\x7b' :: p.1, p.2) := rfl

theorem body?_last : body? .outside 1 ('\x7d' :: cs) = some ([], cs) := rfl

theorem body?_close : body? .outside (depth + 2) ('\x7d' :: cs) =
    (body? .outside (depth + 1) cs).map fun p => ('\x7d' :: p.1, p.2) := by
  have hdeep : ¬('\x7d' = '\x7d' ∧ depth + 2 ≤ 1) := by omega
  rw [body?, if_neg hdeep]
  rfl

theorem body?_char (hquote : c ≠ '"') (hopen : c ≠ '\x7b') (hclose : c ≠ '\x7d') :
    body? .outside depth (c :: cs) =
      (body? .outside depth cs).map fun p => (c :: p.1, p.2) := by
  simp only [body?, hquote, hopen, hclose, false_and, if_false]

theorem body?_quoted (h : Quoted text) : body? .inside depth (text ++ '"' :: cs) =
    (body? .outside depth cs).map fun p => (text ++ '"' :: p.1, p.2) := by
  induction h with
  | nil => rfl
  | char hquote hbackslash _ ih =>
    rw [List.cons_append, body?, if_neg hbackslash, if_neg hquote, ih, Option.map_map]
    rfl
  | escape _ ih =>
    rw [List.cons_append, List.cons_append, body?, if_pos rfl, body?, ih, Option.map_map,
      Option.map_map]
    rfl

/-- The scan runs through a balanced text and is behind it as deep as before. -/
theorem body?_balanced (h : Balanced text) : body? .outside (depth + 1) (text ++ cs) =
    (body? .outside (depth + 1) cs).map fun p => (text ++ p.1, p.2) := by
  induction h generalizing depth cs with
  | nil => simp
  | char hquote hopen hclose _ ih =>
    rw [List.cons_append, body?_char hquote hopen hclose, ih, Option.map_map]
    rfl
  | string htext _ ih =>
    rw [List.append_assoc, List.cons_append, List.cons_append, body?_quote, body?_quoted htext, ih,
      Option.map_map, Option.map_map]
    simp [Function.comp_def]
  | block _ _ ihbody ih =>
    rw [List.append_assoc, List.cons_append, List.cons_append, body?_open, ihbody, body?_close, ih,
      Option.map_map, Option.map_map, Option.map_map]
    simp [Function.comp_def]

/-- What may stand in front of the brace that closes one brace and `depth` more around it. -/
def Closes : Nat → List Char → Prop
  | 0, text => Balanced text
  | depth + 1, text =>
    ∃ body rest, text = body ++ '\x7d' :: rest ∧ Balanced body ∧ Closes depth rest

theorem Closes.prepend (hfront : ∀ {cs}, Balanced cs → Balanced (front ++ cs))
    (h : Closes depth text) : Closes depth (front ++ text) := by
  cases depth with
  | zero => exact hfront h
  | succ depth =>
    obtain ⟨body, rest, rfl, hbody, hrest⟩ := h
    exact ⟨front ++ body, rest, by simp, hfront hbody, hrest⟩

theorem quoted_of_body? (h : body? .inside depth cs = some (text, rest)) :
    ∃ string behind after, cs = string ++ '"' :: behind ∧ Quoted string ∧
      text = string ++ '"' :: after ∧ body? .outside depth behind = some (after, rest) := by
  induction hn : cs.length using Nat.strongRecOn generalizing cs text with
  | ind n ih =>
    cases cs with
    | nil => cases h
    | cons c cs =>
      rw [body?] at h
      obtain ⟨⟨text, rest⟩, hbody, heq⟩ := Option.map_eq_some_iff.mp h
      cases heq
      by_cases hbackslash : c = '\\'
      · subst hbackslash
        rw [if_pos rfl] at hbody
        cases cs with
        | nil => cases hbody
        | cons d cs =>
          obtain ⟨⟨text, rest⟩, hbody, heq⟩ := Option.map_eq_some_iff.mp hbody
          cases heq
          have hshort : cs.length < n := by simp at hn; omega
          obtain ⟨string, behind, after, rfl, hstring, rfl, hafter⟩ := ih _ hshort hbody rfl
          exact ⟨'\\' :: d :: string, behind, after, rfl, hstring.escape, rfl, hafter⟩
      · rw [if_neg hbackslash] at hbody
        by_cases hquote : c = '"'
        · subst hquote
          rw [if_pos rfl] at hbody
          exact ⟨[], cs, text, rfl, .nil, rfl, hbody⟩
        · rw [if_neg hquote] at hbody
          have hshort : cs.length < n := by simp at hn; omega
          obtain ⟨string, behind, after, rfl, hstring, rfl, hafter⟩ := ih _ hshort hbody rfl
          exact ⟨c :: string, behind, after, rfl, .char hquote hbackslash hstring, rfl, hafter⟩

theorem closes_of_body? (h : body? .outside (depth + 1) cs = some (text, rest)) :
    Closes depth text := by
  -- A string is skipped as a whole, so the induction is on the length and not on the text.
  induction hn : cs.length using Nat.strongRecOn generalizing cs depth text with
  | ind n ih =>
    cases cs with
    | nil => cases h
    | cons c cs =>
      have hshort : cs.length < n := by simp at hn; omega
      by_cases hquote : c = '"'
      · subst hquote
        obtain ⟨⟨text, rest⟩, hbody, heq⟩ := Option.map_eq_some_iff.mp h
        cases heq
        obtain ⟨string, behind, after, rfl, hstring, rfl, hafter⟩ := quoted_of_body? hbody
        have hbehind : behind.length < n := by simp at hshort; omega
        have hclose : Closes depth (('"' :: string ++ ['"']) ++ after) :=
          (ih _ hbehind hafter rfl).prepend fun hcs => by simpa using Balanced.string hstring hcs
        simpa using hclose
      by_cases hopen : c = '\x7b'
      · subst hopen
        obtain ⟨⟨text, rest⟩, hbody, heq⟩ := Option.map_eq_some_iff.mp h
        cases heq
        obtain ⟨inner, after, rfl, hinner, hafter⟩ := ih _ hshort hbody rfl
        have hclose : Closes depth (('\x7b' :: inner ++ ['\x7d']) ++ after) :=
          hafter.prepend fun hcs => by simpa using Balanced.block hinner hcs
        simpa using hclose
      by_cases hclose : c = '\x7d'
      · subst hclose
        cases depth with
        | zero =>
          cases h
          exact Balanced.nil
        | succ depth =>
          rw [body?_close] at h
          obtain ⟨⟨text, rest⟩, hbody, heq⟩ := Option.map_eq_some_iff.mp h
          cases heq
          exact ⟨[], text, rfl, .nil, ih _ hshort hbody rfl⟩
      · rw [body?_char hquote hopen hclose] at h
        obtain ⟨⟨text, rest⟩, hbody, heq⟩ := Option.map_eq_some_iff.mp h
        cases heq
        have hbehind : Closes depth text := ih _ hshort hbody rfl
        have hclosed : Closes depth ([c] ++ text) :=
          hbehind.prepend fun hcs => .char hquote hopen hclose hcs
        exact hclosed

/-- A body is the balanced text in front of a closing brace. -/
theorem body?_eq_some_iff :
    body? .outside 1 cs = some (body, rest) ↔ cs = body ++ '\x7d' :: rest ∧ Balanced body := by
  constructor
  · intro h
    exact ⟨(body?_eq_some h).1, closes_of_body? h⟩
  · rintro ⟨rfl, hbody⟩
    rw [body?_balanced hbody, body?_last]
    simp

section

variable {quoting : Quoting} {offset : Nat} {behind : List UInt8}

/-- Bytes that are no characters of their own change nothing, except behind a backslash. -/
theorem closingFrom_high {bs : List UInt8} (hbs : ∀ b ∈ bs, 0x80 ≤ b.toNat)
    (hquoting : quoting ≠ .escaped) : closingFrom quoting depth offset (bs ++ behind) =
      closingFrom quoting depth (offset + bs.length) behind := by
  induction bs generalizing offset with
  | nil => rfl
  | cons b bs ih =>
    have hb : 0x80 ≤ b.toNat := hbs b List.mem_cons_self
    have hne {low : UInt8} (hlow : low.toNat < 0x80) : b ≠ low := by
      rintro rfl
      omega
    have hnext : closingFrom quoting depth offset (b :: (bs ++ behind)) =
        closingFrom quoting depth (offset + 1) (bs ++ behind) := by
      cases quoting with
      | outside =>
        rw [closingFrom, if_neg (hne (by decide)), if_neg (hne (by decide)),
          if_neg (hne (by decide))]
      | inside => rw [closingFrom, if_neg (hne (by decide)), if_neg (hne (by decide))]
      | escaped => exact absurd rfl hquoting
    have hrest : closingFrom quoting depth (offset + 1) (bs ++ behind) =
        closingFrom quoting depth (offset + 1 + bs.length) behind :=
      ih fun b hb => hbs b (List.mem_cons_of_mem _ hb)
    rw [List.cons_append, hnext, hrest, List.length_cons]
    congr 1
    omega

/-- A byte is that of an ASCII character only where the character itself stands. -/
theorem byte_eq_iff (hc : c.toNat < 0x80) (d : Char) (hd : d.toNat < 0x80) :
    UInt8.ofNat c.toNat = UInt8.ofNat d.toNat ↔ c = d := by
  constructor
  · intro h
    have hvalue := congrArg UInt8.toNat h
    simp only [UInt8.toNat_ofNat'] at hvalue
    apply Char.ext
    apply UInt32.toNat_inj.mp
    show c.toNat = d.toNat
    omega
  · rintro rfl
    rfl

theorem ne_of_high {d : Char} (hc : 0x80 ≤ c.toNat) (hd : d.toNat < 0x80) : c ≠ d := by
  rintro rfl
  omega

theorem closingFrom_inside (c : Char) :
    closingFrom .inside depth offset (String.utf8EncodeChar c ++ behind) =
      closingFrom (Quoting.inside.step c) depth (offset + (String.utf8EncodeChar c).length)
        behind := by
  rcases Text.encode_cases c with ⟨hlow, hbyte⟩ | ⟨hhigh, hbytes⟩
  · have hbackslash : UInt8.ofNat c.toNat = 0x5C ↔ c = '\\' := byte_eq_iff hlow '\\' (by decide)
    have hquote : UInt8.ofNat c.toNat = 0x22 ↔ c = '"' := byte_eq_iff hlow '"' (by decide)
    rw [hbyte]
    simp only [List.cons_append, List.nil_append, closingFrom, hbackslash, hquote, Quoting.step,
      List.length_singleton]
  · have hstep : Quoting.inside.step c = .inside := by
      rw [Quoting.step, if_neg (ne_of_high hhigh (by decide)),
        if_neg (ne_of_high hhigh (by decide))]
    rw [hstep]
    exact closingFrom_high hbytes (by decide)

theorem closingFrom_escaped (c : Char) :
    closingFrom .escaped depth offset (String.utf8EncodeChar c ++ behind) =
      closingFrom .inside depth (offset + (String.utf8EncodeChar c).length) behind := by
  rcases Text.encode_cases c with ⟨-, hbyte⟩ | ⟨-, hbytes⟩
  · rw [hbyte]
    rfl
  · have hlength := String.length_utf8EncodeChar c
    have hpos := c.utf8Size_pos
    cases hencode : String.utf8EncodeChar c with
    | nil =>
      rw [hencode, List.length_nil] at hlength
      omega
    | cons b bs =>
      have hbs : ∀ b ∈ bs, 0x80 ≤ b.toNat := fun b hb =>
        hbytes b (hencode ▸ List.mem_cons_of_mem _ hb)
      rw [List.cons_append, closingFrom, closingFrom_high hbs (by decide), List.length_cons]
      congr 1
      omega

theorem closingFrom_other (hquote : c ≠ '"') (hopen : c ≠ '\x7b') (hclose : c ≠ '\x7d') :
    closingFrom .outside depth offset (String.utf8EncodeChar c ++ behind) =
      closingFrom .outside depth (offset + (String.utf8EncodeChar c).length) behind := by
  rcases Text.encode_cases c with ⟨hlow, hbyte⟩ | ⟨-, hbytes⟩
  · have hne {d : Char} (hd : d.toNat < 0x80) (hcd : c ≠ d) :
        UInt8.ofNat c.toNat ≠ UInt8.ofNat d.toNat := fun h => hcd ((byte_eq_iff hlow d hd).mp h)
    have hquote' : UInt8.ofNat c.toNat ≠ 0x22 := hne (by decide) hquote
    have hopen' : UInt8.ofNat c.toNat ≠ 0x7B := hne (by decide) hopen
    have hclose' : UInt8.ofNat c.toNat ≠ 0x7D := hne (by decide) hclose
    rw [hbyte, List.singleton_append, closingFrom, if_neg hquote', if_neg hopen', if_neg hclose']
    rfl
  · exact closingFrom_high hbytes (by decide)

/-- Byte by byte the same brace is found as character by character: no byte inside a character is
taken for a brace, a quote or a backslash. -/
theorem closingFrom_bytes : closingFrom quoting (depth + 1) offset (Text.bytes cs) =
    (body? quoting (depth + 1) cs).map fun p => offset + (Text.bytes p.1).length := by
  induction cs generalizing quoting depth offset with
  | nil => cases quoting <;> rfl
  | cons c cs ih =>
    have hshift (found : Option (List Char × List Char)) :
        (found.map fun p => (c :: p.1, p.2)).map (fun p => offset + (Text.bytes p.1).length) =
          found.map fun p =>
            offset + (String.utf8EncodeChar c).length + (Text.bytes p.1).length := by
      rw [Option.map_map]
      congr 1
      funext p
      simp only [Function.comp_apply, Text.bytes_cons, List.length_append, Nat.add_assoc]
    rw [Text.bytes_cons]
    cases quoting with
    | outside =>
      by_cases hquote : c = '"'
      · subst hquote
        rw [body?_quote, hshift]
        exact ih
      by_cases hopen : c = '\x7b'
      · subst hopen
        rw [body?_open, hshift]
        exact ih
      by_cases hclose : c = '\x7d'
      · subst hclose
        cases depth with
        | zero => rfl
        | succ depth =>
          rw [body?_close, hshift]
          exact ih
      · rw [body?_char hquote hopen hclose, hshift, closingFrom_other hquote hopen hclose]
        exact ih
    | inside =>
      rw [closingFrom_inside, ih]
      exact (hshift _).symm
    | escaped =>
      rw [closingFrom_escaped, ih]
      exact (hshift _).symm

end

end TreeFacts.Program
