namespace TreeFacts.Shell

/-- One part of a word. -/
inductive Part where
  | text (quoted : Bool) (s : List Char)
  /-- the value of a parameter, less the given text at its end -/
  | param (quoted : Bool) (name : String) (dropped : List Char)
  deriving DecidableEq, Repr

abbrev Word := List Part

/-- The text of a word in which nothing is quoted or replaced. -/
def Word.plain? : Word → Option String
  | [.text false s] => some (String.ofList s)
  | _ => none

/-- Sends what is written to one of the streams, 1 or 2, elsewhere. -/
inductive Redirect where
  | file (stream : Nat) (append : Bool) (path : Word)
  | stream (stream target : Nat)
  deriving DecidableEq, Repr

inductive Command where
  | simple (assignments : List (String × Word)) (words : List Word) (redirects : List Redirect)
  | branch (condition accepted rejected : List Command)
  | each (name : String) (words : List Word) (body : List Command)
  | both (first second : Command)
  | either (first second : Command)
  | redirected (body : List Command) (redirects : List Redirect)

inductive Token where
  | word (w : Word)
  /-- a line break or a semicolon, one or two ampersands or bars, a brace or a parenthesis -/
  | operator (s : String)
  | redirect (stream : Nat) (append : Bool)
  | duplicate (stream target : Nat)
  deriving DecidableEq, Repr

end TreeFacts.Shell
