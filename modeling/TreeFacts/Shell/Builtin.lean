import TreeFacts.Process
import TreeFacts.Text.Basic
import TreeFacts.Text.Numeral

namespace TreeFacts.Shell

def encode (cs : List Char) : List UInt8 := (String.ofList cs).toUTF8.toList

def octal? (c : Char) : Option Nat :=
  if '0' ≤ c ∧ c ≤ '7' then some (c.toNat - '0'.toNat) else none

/-- The value of at most `n` octal digits. -/
def octalValue : Nat → Nat → List Char → Nat × List Char
  | n + 1, value, c :: cs =>
    match octal? c with
    | some d => octalValue n (8 * value + d) cs
    | none => (value, c :: cs)
  | _, value, cs => (value, cs)

def control? : Char → Option UInt8
  | '\\' => some 92
  | 'a' => some 7
  | 'b' => some 8
  | 'f' => some 12
  | 'n' => some 10
  | 'r' => some 13
  | 't' => some 9
  | 'v' => some 11
  | _ => none

/-- The bytes of an escape behind its backslash, and what follows it. An unknown escape is only its
backslash. -/
def escape (cs : List Char) : List UInt8 × List Char :=
  match cs with
  | c :: rest =>
    match control? c, octal? c with
    | some b, _ => ([b], rest)
    | none, some _ =>
      let (value, rest) := octalValue 3 0 cs
      ([value.toUInt8], rest)
    | none, none => ([92], cs)
  | [] => ([92], [])

/-- Text with its escapes replaced, and whether it was used to its end, before which an escaped
letter c stops it. -/
def unescape : Nat → List Char → List UInt8 × Bool
  | _ + 1, '\\' :: 'c' :: _ => ([], false)
  | fuel + 1, '\\' :: '0' :: cs =>
    let (value, rest) := octalValue 3 0 cs
    let (bytes, whole) := unescape fuel rest
    (value.toUInt8 :: bytes, whole)
  | fuel + 1, '\\' :: cs =>
    let (b, rest) := escape cs
    let (bytes, whole) := unescape fuel rest
    (b ++ bytes, whole)
  | fuel + 1, c :: cs =>
    let (bytes, whole) := unescape fuel cs
    (encode [c] ++ bytes, whole)
  | _, _ => ([], true)

/-- Writes its arguments with blanks between, escapes replaced, and a line break. -/
def echo (args : List String) : List UInt8 :=
  let (newline, args) := match args with
    | "-n" :: rest => (false, rest)
    | _ => (true, args)
  let text := (" ".intercalate args).toList
  let (bytes, whole) := unescape (text.length + 1) text
  bytes ++ if newline && whole then [10] else []

/-- One pass over a format: what is written and the arguments left. -/
def formatOnce : Nat → List Char → List String → List UInt8 × List String
  | fuel + 1, '%' :: c :: cs, args =>
    let arg := args.headD ""
    let written : List UInt8 := match c with
      | '%' => [37]
      | 'b' => (unescape (arg.length + 1) arg.toList).1
      | 'd' => encode (toString ((Text.readInt? arg.toList).getD 0)).toList
      | _ => encode arg.toList
    let (bytes, left) := formatOnce fuel cs (if c = '%' then args else args.drop 1)
    (written ++ bytes, left)
  | fuel + 1, '\\' :: cs, args =>
    let (b, rest) := escape cs
    let (bytes, left) := formatOnce fuel rest args
    (b ++ bytes, left)
  | fuel + 1, c :: cs, args =>
    let (bytes, left) := formatOnce fuel cs args
    (encode [c] ++ bytes, left)
  | _, _, args => ([], args)

/-- Writes a format, again and again as long as it takes up arguments that are left. -/
def formatAll : Nat → List Char → List String → List UInt8
  | 0, _, _ => []
  | fuel + 1, format, args =>
    let (bytes, left) := formatOnce format.length format args
    if left.isEmpty || left.length = args.length then bytes
    else bytes ++ formatAll fuel format left

/-- The last step of a path, less the given text at its end. -/
def basename (path : String) (dropped : List Char) : String :=
  let cs := (path.toList.reverse.dropWhile (· = '/')).reverse
  let name := (cs.reverse.takeWhile (· ≠ '/')).reverse
  if path.toList ≠ [] ∧ cs = [] then "/"
  else String.ofList (if name = dropped then name else (Text.dropBack? dropped name).getD name)

/-- What a path has in front of its last step. -/
def dirname (path : String) : String :=
  let cs := (path.toList.reverse.dropWhile (· = '/')).reverse
  if cs.contains '/' then
    let front := ((cs.reverse.dropWhile (· ≠ '/')).dropWhile (· = '/')).reverse
    if front.isEmpty then "/" else String.ofList front
  else "."

/-- What a test on words and files says. -/
def test (fs : FileSystem) : List String → Bool
  | [] => false
  | "!" :: rest => !test fs rest
  | [a] => a ≠ ""
  | ["-n", a] => a ≠ ""
  | ["-z", a] => a = ""
  | ["-f", a] => (fs.files.lookup a).isSome
  | ["-s", a] => match fs.files.lookup a with
    | some bytes => bytes.size > 0
    | none => false
  | ["-d", a] => fs.directories.contains a
  | ["-e", a] => (fs.files.lookup a).isSome || fs.directories.contains a
  | [a, op, b] =>
    let m := (Text.readInt? a.toList).getD 0
    let n := (Text.readInt? b.toList).getD 0
    match op with
    | "=" => a = b
    | "!=" => a ≠ b
    | "-eq" => m = n
    | "-ne" => m ≠ n
    | "-lt" => m < n
    | "-le" => m ≤ n
    | "-gt" => m > n
    | "-ge" => m ≥ n
    | _ => false
  | _ => false

end TreeFacts.Shell
