namespace TreeFacts.Keccak

/-- Twenty-five lanes; the lane in column `x` and row `y` is at `x + 5 * y`. -/
abbrev State := Array UInt64

def lane (s : State) (i : Nat) : UInt64 := s.getD i 0

/-- A state given lane by lane. -/
def tabulate (f : Nat → Nat → UInt64) : State :=
  ((List.range 25).map fun i => f (i % 5) (i / 5)).toArray

def rotate (w : UInt64) (n : Nat) : UInt64 :=
  if n = 0 then w else (w <<< n.toUInt64) ||| (w >>> (64 - n).toUInt64)

/-- How far each lane is rotated. -/
def offsets : List Nat :=
  [0, 1, 62, 28, 27, 36, 44, 6, 55, 20, 3, 10, 43, 25, 39, 41, 45, 15, 21, 8, 18, 2, 61, 56, 14]

def roundConstants : List UInt64 :=
  [0x0000000000000001, 0x0000000000008082, 0x800000000000808A, 0x8000000080008000,
   0x000000000000808B, 0x0000000080000001, 0x8000000080008081, 0x8000000000008009,
   0x000000000000008A, 0x0000000000000088, 0x0000000080008009, 0x000000008000000A,
   0x000000008000808B, 0x800000000000008B, 0x8000000000008089, 0x8000000000008003,
   0x8000000000008002, 0x8000000000000080, 0x000000000000800A, 0x800000008000000A,
   0x8000000080008081, 0x8000000000008080, 0x0000000080000001, 0x8000000080008008]

/-- Adds to each lane the parities of the column before and, rotated, of the column after. -/
def theta (s : State) : State :=
  let parity (x : Nat) : UInt64 :=
    (List.range 5).foldl (fun w y => w ^^^ lane s (x % 5 + 5 * y)) 0
  let change := (List.range 5).map fun x => parity (x + 4) ^^^ rotate (parity (x + 1)) 1
  tabulate fun x y => lane s (x + 5 * y) ^^^ change.getD x 0

/-- Rotates each lane and moves it to its new place. -/
def rhoPi (s : State) : State :=
  tabulate fun x y =>
    let source := (x + 3 * y) % 5 + 5 * x
    rotate (lane s source) (offsets.getD source 0)

/-- Combines each lane with the two after it in its row. -/
def chi (s : State) : State :=
  tabulate fun x y =>
    lane s (x + 5 * y) ^^^
      ((lane s ((x + 1) % 5 + 5 * y)).complement &&& lane s ((x + 2) % 5 + 5 * y))

def round (s : State) (constant : UInt64) : State :=
  let s := chi (rhoPi (theta s))
  s.set! 0 (lane s 0 ^^^ constant)

def permute (s : State) : State := roundConstants.foldl round s

/-- How many bytes a block has. -/
def rate : Nat := 136

/-- A message filled up to whole blocks. -/
def pad (message : List UInt8) : List UInt8 :=
  let missing := rate - message.length % rate
  if missing = 1 then message ++ [0x81]
  else message ++ [0x01] ++ List.replicate (missing - 2) 0 ++ [0x80]

def chunks (size : Nat) : Nat → List UInt8 → List (List UInt8)
  | 0, _ => []
  | n + 1, bytes => bytes.take size :: chunks size n (bytes.drop size)

/-- Eight bytes as a word, the lowest first. -/
def word (bytes : List UInt8) : UInt64 := bytes.foldr (fun b w => (w <<< 8) ||| b.toUInt64) 0

def absorb (s : State) (block : List UInt8) : State :=
  let words := (chunks 8 (rate / 8) block).map word
  permute (tabulate fun x y => lane s (x + 5 * y) ^^^ words.getD (x + 5 * y) 0)

/-- The bytes of a word, the lowest first. -/
def bytes (w : UInt64) : List UInt8 := (List.range 8).map fun i => (w >>> (8 * i).toUInt64).toUInt8

/-- The 32 bytes of the Keccak-256 digest. -/
def digest (message : List UInt8) : List UInt8 :=
  let padded := pad message
  let s := (chunks rate (padded.length / rate) padded).foldl absorb (tabulate fun _ _ => 0)
  ((List.range 4).map fun i => bytes (lane s i)).flatten

end TreeFacts.Keccak
