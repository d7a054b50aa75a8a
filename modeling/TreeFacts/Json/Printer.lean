import TreeFacts.Json.Basic

namespace TreeFacts.Json

def hex4 (n : Nat) : List Char :=
  let digits := Nat.toDigits 16 n
  List.replicate (4 - digits.length) '0' ++ digits

def escape (c : Char) : List Char :=
  if c = '"' then ['\\', '"']
  else if c = '\\' then ['\\', '\\']
  else if c = '\n' then ['\\', 'n']
  else if c = '\r' then ['\\', 'r']
  else if c = '\t' then ['\\', 't']
  else if c = '\x08' then ['\\', 'b']
  else if c = '\x0c' then ['\\', 'f']
  else if c.toNat < 0x20 then ['\\', 'u'] ++ hex4 c.toNat
  else [c]

def renderString (s : String) : String :=
  "\"" ++ String.ofList (s.toList.flatMap escape) ++ "\""

mutual

def render : Json → String
  | null => "null"
  | bool b => if b then "true" else "false"
  | int n => toString n
  | real => "0.0"
  | str s => renderString s
  | arr items => "[" ++ ",".intercalate (renderItems items) ++ "]"
  | obj members => "\x7b" ++ ",".intercalate (renderMembers members) ++ "\x7d"

def renderItems : List Json → List String
  | [] => []
  | item :: items => render item :: renderItems items

def renderMembers : List (String × Json) → List String
  | [] => []
  | (key, value) :: members => (renderString key ++ ":" ++ render value) :: renderMembers members

end

end TreeFacts.Json
