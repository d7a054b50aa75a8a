import TreeFacts.Program.Lexeme
import TreeFacts.Shell.Syntax

namespace TreeFacts.Shell

open Program (isNameStart isNameChar before?)

/-- The parameter behind a dollar sign, in braces or bare, and what follows it. -/
def parameter? (quoted : Bool) : List Char → Option (Part × List Char)
  | '\x7b' :: cs => do
    let (inner, rest) ← before? '\x7d' cs
    let name := inner.takeWhile fun c => isNameChar c || c = '#' || c = '@' || c = '*'
    match inner.dropWhile fun c => isNameChar c || c = '#' || c = '@' || c = '*' with
    | '%' :: dropped => return (.param quoted (String.ofList name) dropped, rest)
    | _ => return (.param quoted (String.ofList name) [], rest)
  | c :: cs =>
    if isNameStart c then
      some (.param quoted (String.ofList (c :: cs.takeWhile isNameChar)) [],
        cs.dropWhile isNameChar)
    else if c.isDigit || c = '#' || c = '@' || c = '*' || c = '$' || c = '?' then
      some (.param quoted (String.singleton c) [], cs)
    else none
  | [] => none

/-- Puts a character in front of a word. -/
def consChar (quoted : Bool) (c : Char) : Word → Word
  | .text q s :: parts =>
    if q = quoted then .text q (c :: s) :: parts else .text quoted [c] :: .text q s :: parts
  | parts => .text quoted [c] :: parts

/-- Whether a character ends a word that is not quoted. -/
def endsWord (c : Char) : Bool :=
  c = ' ' || c = '\t' || c = '\n' || c = ';' || c = '&' || c = '|' || c = '<' || c = '>' ||
    c = '(' || c = ')'

/-- How the characters of a word are read. -/
inductive WordPlace where
  | bare
  | single
  | double
  deriving DecidableEq, Repr

/-- A word and what follows it. -/
def readWord : Nat → WordPlace → List Char → Word × List Char
  | 0, _, cs => ([], cs)
  | _ + 1, _, [] => ([], [])
  | fuel + 1, place, c :: cs =>
    let char (quoted : Bool) (c : Char) (next : WordPlace) (cs : List Char) : Word × List Char :=
      let (w, rest) := readWord fuel next cs
      (consChar quoted c w, rest)
    let quote (next : WordPlace) : Word × List Char :=
      let (w, rest) := readWord fuel next cs
      (.text true [] :: w, rest)
    let dollar (quoted : Bool) : Word × List Char :=
      match parameter? quoted cs with
      | some (p, cs) =>
        let (w, rest) := readWord fuel place cs
        (p :: w, rest)
      | none => char quoted '$' place cs
    match place with
    | .single => if c = '\'' then readWord fuel .bare cs else char true c .single cs
    | .double =>
      if c = '"' then readWord fuel .bare cs
      else if c = '$' then dollar true
      else if c = '\\' then
        match cs with
        | '\n' :: cs => readWord fuel .double cs
        | e :: cs =>
          if e = '$' || e = '"' || e = '\\' || e.toNat = 0x60 then char true e .double cs
          else char true '\\' .double (e :: cs)
        | [] => char true '\\' .double []
      else char true c .double cs
    | .bare =>
      if endsWord c then ([], c :: cs)
      else if c = '\'' then quote .single
      else if c = '"' then quote .double
      else if c = '$' then dollar false
      else if c = '\\' then
        match cs with
        | '\n' :: cs => readWord fuel .bare cs
        | e :: cs => char true e .bare cs
        | [] => char true '\\' .bare []
      else char false c .bare cs

/-- A redirection sign without the word behind it, and what follows it. -/
def redirection? (cs : List Char) : Option (Token × List Char) :=
  let (stream, cs) := match cs with
    | '1' :: '>' :: rest => (1, '>' :: rest)
    | '2' :: '>' :: rest => (2, '>' :: rest)
    | _ => (1, cs)
  match cs with
  | '>' :: '&' :: '1' :: rest => some (.duplicate stream 1, rest)
  | '>' :: '&' :: '2' :: rest => some (.duplicate stream 2, rest)
  | '>' :: '>' :: rest => some (.redirect stream true, rest)
  | '>' :: rest => some (.redirect stream false, rest)
  | _ => none

def tokens : Nat → List Char → List Token
  | 0, _ => []
  | _ + 1, [] => []
  | fuel + 1, c :: cs =>
    if c = ' ' || c = '\t' then tokens fuel cs
    else if c = '#' then tokens fuel (cs.dropWhile (· ≠ '\n'))
    else if c = '\n' || c = ';' then .operator ";" :: tokens fuel cs
    else match redirection? (c :: cs), c, cs with
      | some (t, rest), _, _ => t :: tokens fuel rest
      | none, '&', '&' :: rest => .operator "&&" :: tokens fuel rest
      | none, '|', '|' :: rest => .operator "||" :: tokens fuel rest
      | none, _, _ =>
        if endsWord c then .operator (String.singleton c) :: tokens fuel cs
        else
          let (w, rest) := readWord (2 * (c :: cs).length + 2) .bare (c :: cs)
          .word w :: tokens fuel rest

/-- The word that a token is, if nothing in it is quoted. -/
def Token.plain? : Token → Option String
  | .word w => w.plain?
  | _ => none

/-- The assignment that a word stands for where a command begins. -/
def assignment? : Word → Option (String × Word)
  | .text false s :: parts => do
    let (name, value) ← before? '=' s
    guard (¬name.isEmpty ∧ name.all isNameChar ∧ (name.head?.map isNameStart) = some true)
    return (String.ofList name, if value.isEmpty then parts else .text false value :: parts)
  | _ => none

def redirects : List Token → List Redirect × List Token
  | .redirect stream append :: .word w :: rest =>
    let (rs, rest) := redirects rest
    (.file stream append w :: rs, rest)
  | .duplicate stream target :: rest =>
    let (rs, rest) := redirects rest
    (.stream stream target :: rs, rest)
  | ts => ([], ts)

/-- Words and redirections up to the end of a command. -/
def arguments : List Token → List Word × List Redirect × List Token
  | .redirect stream append :: .word w :: rest =>
    let (ws, rs, rest) := arguments rest
    (ws, .file stream append w :: rs, rest)
  | .duplicate stream target :: rest =>
    let (ws, rs, rest) := arguments rest
    (ws, .stream stream target :: rs, rest)
  | .word w :: rest =>
    let (ws, rs, rest) := arguments rest
    (w :: ws, rs, rest)
  | ts => ([], [], ts)

def assignments : List Token → List (String × Word) × List Token
  | .word w :: rest =>
    match assignment? w with
    | some a =>
      let (more, rest) := assignments rest
      (a :: more, rest)
    | none => ([], .word w :: rest)
  | ts => ([], ts)

def skipSeparators : List Token → List Token
  | .operator s :: rest => if s = ";" then skipSeparators rest else .operator s :: rest
  | ts => ts

/-- What follows a keyword and the separators before it. -/
def keyword? (word : String) (ts : List Token) : Option (List Token) :=
  match skipSeparators ts with
  | t :: rest => if t.plain? = some word then some rest else none
  | [] => none

/-- The keywords that end a list of commands. -/
def closers : List String := ["then", "elif", "else", "fi", "do", "done", "\x7d"]

mutual

/-- Commands up to a closing keyword or the end. -/
def readCommands : Nat → List Token → Option (List Command × List Token)
  | 0, _ => none
  | fuel + 1, ts =>
    match skipSeparators ts with
    | [] => some ([], [])
    | t :: rest =>
      match t.plain?.map closers.contains with
      | some true => some ([], t :: rest)
      | _ => do
        let (c, rest) ← readChain fuel (t :: rest)
        let (cs, rest) ← readCommands fuel rest
        return (c :: cs, rest)

/-- Commands joined by their success or failure, from the left. -/
def readChain : Nat → List Token → Option (Command × List Token)
  | 0, _ => none
  | fuel + 1, ts => do
    let (c, rest) ← readCommand fuel ts
    readLinks fuel c rest

def readLinks : Nat → Command → List Token → Option (Command × List Token)
  | 0, _, _ => none
  | fuel + 1, c, ts =>
    match ts with
    | .operator "&&" :: rest => do
      let (d, rest) ← readCommand fuel (skipSeparators rest)
      readLinks fuel (.both c d) rest
    | .operator "||" :: rest => do
      let (d, rest) ← readCommand fuel (skipSeparators rest)
      readLinks fuel (.either c d) rest
    | ts => some (c, ts)

def readCommand : Nat → List Token → Option (Command × List Token)
  | 0, _ => none
  | fuel + 1, ts =>
    match ts with
    | [] => none
    | t :: rest =>
      let close (body : List Command) (rest : List Token) : Command × List Token :=
        let (rs, rest) := redirects rest
        (.redirected body rs, rest)
      match t.plain? with
      | some "if" => do
        let (c, rest) ← readBranch fuel rest
        return close [c] rest
      | some "for" =>
        match rest with
        | .word w :: rest => do
          let name ← w.plain?
          let (words, rest) := match keyword? "in" rest with
            | some rest =>
              let (ws, _, rest) := arguments rest
              (ws, rest)
            | none => ([[.param true "@" []]], rest)
          let (body, rest) ← readCommands fuel (← keyword? "do" rest)
          return close [.each name words body] (← keyword? "done" rest)
        | _ => none
      | some "\x7b" => do
        let (body, rest) ← readCommands fuel rest
        return close body (← keyword? "\x7d" rest)
      | _ =>
        let (as, rest) := assignments (t :: rest)
        let (ws, rs, after) := arguments rest
        if as.isEmpty && ws.isEmpty && rs.isEmpty then none
        else some (.simple as ws rs, after)

/-- The rest of a conditional behind its first keyword. -/
def readBranch : Nat → List Token → Option (Command × List Token)
  | 0, _ => none
  | fuel + 1, ts => do
    let (condition, rest) ← readCommands fuel ts
    let (accepted, rest) ← readCommands fuel (← keyword? "then" rest)
    match keyword? "elif" rest, keyword? "else" rest with
    | some rest, _ => do
      let (c, rest) ← readBranch fuel rest
      return (.branch condition accepted [c], rest)
    | none, some rest => do
      let (rejected, rest) ← readCommands fuel rest
      return (.branch condition accepted rejected, ← keyword? "fi" rest)
    | none, none => return (.branch condition accepted [], ← keyword? "fi" rest)

end

/-- The commands of a script, if all of it can be read. -/
def parse (text : String) : Option (List Command) :=
  let cs := text.toList
  let ts := tokens (cs.length + 1) cs
  match readCommands (8 * ts.length + 8) ts with
  | some (commands, []) => some commands
  | _ => none

end TreeFacts.Shell
