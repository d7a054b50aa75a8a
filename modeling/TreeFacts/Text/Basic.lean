namespace TreeFacts.Text

/-- What follows the given text at the front. -/
def dropFront? (front cs : List Char) : Option (List Char) :=
  if front.isPrefixOf cs then some (cs.drop front.length) else none

/-- What comes before the given text at the end. -/
def dropBack? (back cs : List Char) : Option (List Char) :=
  if back.isSuffixOf cs then some (cs.take (cs.length - back.length)) else none

/-- Whether the given text stands somewhere in another. -/
def occursIn (part : List Char) : List Char → Bool
  | [] => part.isEmpty
  | c :: cs => part.isPrefixOf (c :: cs) || occursIn part cs

/-- Whether a code point lies in one of the given inclusive ranges, which stand in ascending
order. -/
def inRanges : List (Nat × Nat) → Nat → Bool
  | [], _ => false
  | (lo, hi) :: rest, n => decide (lo ≤ n) && (decide (n ≤ hi) || inRanges rest n)

/-- The code points with the White_Space property. -/
def blanks : List (Nat × Nat) :=
  [(0x9, 0xD), (0x20, 0x20), (0x85, 0x85), (0xA0, 0xA0), (0x1680, 0x1680), (0x2000, 0x200A),
   (0x2028, 0x2029), (0x202F, 0x202F), (0x205F, 0x205F), (0x3000, 0x3000)]

/-- White space of any script. -/
def isBlank (c : Char) : Bool := inRanges blanks c.toNat

def trimStart (cs : List Char) : List Char := cs.dropWhile isBlank

def trimEnd (cs : List Char) : List Char := (cs.reverse.dropWhile isBlank).reverse

def trim (cs : List Char) : List Char := trimEnd (trimStart cs)

theorem isBlank_of_visible {c : Char} (hl : 0x21 ≤ c.toNat) (hu : c.toNat ≤ 0x7E) :
    isBlank c = false := by
  simp only [isBlank, blanks, inRanges]
  simp
  omega

end TreeFacts.Text
