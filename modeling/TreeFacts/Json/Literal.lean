import TreeFacts.Json.Basic

namespace TreeFacts.Json

def isSpace (c : Char) : Bool := c = ' ' || c = '\n' || c = '\t' || c = '\r'

def skipSpace (cs : List Char) : List Char := cs.dropWhile isSpace

/-- Splits after the quote that closes a string, of which the opening quote is already read. -/
def splitString : List Char → Option (List Char × List Char)
  | [] => none
  | '"' :: rest => some ([], rest)
  | '\\' :: c :: rest => (splitString rest).map fun (raw, rest) => ('\\' :: c :: raw, rest)
  | c :: rest =>
    if c.toNat < 0x20 then none
    else (splitString rest).map fun (raw, rest) => (c :: raw, rest)

def hexDigit? (c : Char) : Option Nat :=
  if '0' ≤ c ∧ c ≤ '9' then some (c.toNat - '0'.toNat)
  else if 'a' ≤ c ∧ c ≤ 'f' then some (c.toNat - 'a'.toNat + 10)
  else if 'A' ≤ c ∧ c ≤ 'F' then some (c.toNat - 'A'.toNat + 10)
  else none

/-- A character of a string as it is written: itself, or the code unit of a numeric escape. -/
inductive Piece where
  | char (c : Char)
  | code (n : Nat)

def simpleEscape? : Char → Option Char
  | '"' => some '"'
  | '\\' => some '\\'
  | '/' => some '/'
  | 'b' => some '\x08'
  | 'f' => some '\x0c'
  | 'n' => some '\n'
  | 'r' => some '\r'
  | 't' => some '\t'
  | _ => none

def pieces? : List Char → Option (List Piece)
  | [] => some []
  | '\\' :: 'u' :: a :: b :: c :: d :: rest => do
    let a ← hexDigit? a
    let b ← hexDigit? b
    let c ← hexDigit? c
    let d ← hexDigit? d
    return .code (((a * 16 + b) * 16 + c) * 16 + d) :: (← pieces? rest)
  | '\\' :: c :: rest => do
    let c ← simpleEscape? c
    return .char c :: (← pieces? rest)
  | c :: rest => do
    return .char c :: (← pieces? rest)

def isHighSurrogate (n : Nat) : Bool := 0xD800 ≤ n && n < 0xDC00

def isLowSurrogate (n : Nat) : Bool := 0xDC00 ≤ n && n < 0xE000

/-- Joins surrogate pairs. A surrogate without its partner is refused. -/
def joinPieces? : List Piece → Option (List Char)
  | [] => some []
  | .char c :: rest => (joinPieces? rest).map (c :: ·)
  | .code n :: rest =>
    if isHighSurrogate n then
      match rest with
      | .code m :: rest =>
        if isLowSurrogate m then
          (joinPieces? rest).map (Char.ofNat (0x10000 + (n - 0xD800) * 0x400 + (m - 0xDC00)) :: ·)
        else none
      | _ => none
    else if isLowSurrogate n then none
    else (joinPieces? rest).map (Char.ofNat n :: ·)

/-- The text between the quotes of a string. -/
def stringText? (raw : List Char) : Option String :=
  ((pieces? raw).bind joinPieces?).map String.ofList

/-- An optional fraction: whether there is one, and the rest. -/
def fraction? : List Char → Option (Bool × List Char)
  | '.' :: rest =>
    if (rest.takeWhile Char.isDigit).isEmpty then none
    else some (true, rest.dropWhile Char.isDigit)
  | cs => some (false, cs)

/-- An optional exponent: whether there is one, and the rest. -/
def exponent? : List Char → Option (Bool × List Char)
  | [] => some (false, [])
  | c :: rest =>
    if c = 'e' ∨ c = 'E' then
      let rest := match rest with
        | '+' :: rest => rest
        | '-' :: rest => rest
        | _ => rest
      if (rest.takeWhile Char.isDigit).isEmpty then none
      else some (true, rest.dropWhile Char.isDigit)
    else some (false, c :: rest)

/-- A number and what follows it. -/
def number? (cs : List Char) : Option (Json × List Char) := do
  let (negative, cs) := match cs with
    | '-' :: rest => (true, rest)
    | _ => (false, cs)
  let digits := cs.takeWhile Char.isDigit
  if digits.isEmpty ∨ (digits.head? = some '0' ∧ digits.length ≠ 1) then none
  let (fractional, rest) ← fraction? (cs.dropWhile Char.isDigit)
  let (scaled, rest) ← exponent? rest
  let n := digits.foldl (fun n c => 10 * n + (c.toNat - '0'.toNat)) 0
  if fractional || scaled || (negative && n == 0) then return (real, rest)
  return (int (if negative then -(n : Int) else n), rest)

end TreeFacts.Json
