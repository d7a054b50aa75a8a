import TreeFacts.Text.Alphanumeric
import TreeFacts.Text.Utf8
import TreeFacts.Types.Registry

namespace TreeFacts.FactValue

/-- How many bytes text takes in UTF-8. -/
def utf8Size (cs : List Char) : Nat := (Text.bytes cs).length

/-- A fault of a value's text in front of the characters that are left of it. -/
def faultAt (text : String) (fault : ValueFault) (rest : List Char) : Error :=
  .parse (.value fault (utf8Size text.toList - utf8Size rest) text)

/-- What follows a token and the blanks before it. -/
def eat? (token : String) (cs : List Char) : Option (List Char) :=
  let cs := Text.trimStart cs
  if token.toList.isPrefixOf cs then some (cs.drop token.length) else none

def expect (text token : String) (cs : List Char) : Except Error (List Char) :=
  match eat? token cs with
  | some rest => .ok rest
  | none => .error (faultAt text (.expected token) (Text.trimStart cs))

def parseNumber (cs : List Char) : Except Error FactValue :=
  match Text.readInt64? cs with
  | some n => .ok (number n)
  | none => .error (.parse (.noNumber (String.ofList cs)))

/-- The symbol before the closing quote, and what follows the quote. A backslash takes the character
after it as it is. -/
def quotedSymbol? : List Char → Option (List Char × List Char)
  | [] => none
  | '"' :: rest => some ([], rest)
  | '\\' :: c :: rest => (quotedSymbol? rest).map fun (s, rest) => (c :: s, rest)
  | c :: rest => if c = '\\' then none else (quotedSymbol? rest).map fun (s, rest) => (c :: s, rest)

def isDelimiter (c : Char) : Bool := c = ',' || c = ']' || c = ')'

/-- A symbol in quotes, or a bare one that runs up to a delimiter. -/
def readSymbol (text : String) (cs : List Char) : Except Error (FactValue × List Char) :=
  match eat? "\"" cs with
  | some inner =>
    match quotedSymbol? inner with
    | some (s, rest) => .ok (symbol (String.ofList s), rest)
    | none => .error (faultAt text .unterminatedSymbol inner)
  | none =>
    let cs := Text.trimStart cs
    let bare := cs.takeWhile fun c => !isDelimiter c
    .ok (symbol (String.ofList (Text.trimEnd bare)), cs.dropWhile fun c => !isDelimiter c)

def isNumeralChar (c : Char) : Bool := c = '-' || c.isDigit

def readNumber (cs : List Char) : Except Error (FactValue × List Char) :=
  (parseNumber (cs.takeWhile isNumeralChar)).map (·, cs.dropWhile isNumeralChar)

/-- How the values of a type are read from the front of a text. -/
abbrev ReadType := ColumnType → List Char → Except Error (FactValue × List Char)

/-- The values of the fields after the first, each behind a comma. -/
def readMoreFields (text : String) (read : ReadType) :
    FieldTypes → List Char → Except Error (List FactValue × List Char)
  | [], cs => .ok ([], cs)
  | (_, type) :: fields, cs => do
    let (v, rest) ← read type (← expect text "," cs)
    let (vs, rest) ← readMoreFields text read fields rest
    return (v :: vs, rest)

/-- The values of all fields, with commas between. -/
def readFields (text : String) (read : ReadType) :
    FieldTypes → List Char → Except Error (List FactValue × List Char)
  | [], cs => .ok ([], cs)
  | (_, type) :: fields, cs => do
    let (v, rest) ← read type cs
    let (vs, rest) ← readMoreFields text read fields rest
    return (v :: vs, rest)

def readRecord (text : String) (read : ReadType) (fields : FieldTypes) (cs : List Char) :
    Except Error (FactValue × List Char) :=
  match eat? "nil" cs with
  | some rest => .ok (nil, rest)
  | none => do
    let (vs, rest) ← readFields text read fields (← expect text "[" cs)
    return (record vs, ← expect text "]" rest)

def isTagChar (c : Char) : Bool := Text.isAlphanumeric c || c = '_'

def readBranch (text : String) (read : ReadType) (union : String) (branches : List Branch)
    (cs : List Char) : Except Error (FactValue × List Char) := do
  let cs ← expect text "$" cs
  let tag := String.ofList (cs.takeWhile isTagChar)
  match branches.find? (·.name == tag) with
  | none => .error (faultAt text (.unknownBranch tag union) cs)
  | some b =>
    let rest := cs.dropWhile isTagChar
    match eat? "(" rest with
    | some inner =>
      let (args, rest) ← readFields text read b.fields inner
      return (branch b.name args, ← expect text ")" rest)
    | none =>
      if b.fields.isEmpty then return (branch b.name [], Text.trimStart rest)
      else .error (faultAt text (.missingArguments b.name) (Text.trimStart rest))

/-- A value of the given type from the front of a text. `inner` reads the values inside a record or a
branch, if there may be any. Fields are looked up under the name the type is written with. -/
def readClassified (r : Registry) (text : String) (inner : Option ReadType) : ReadType :=
  fun type cs => do
    let cs := Text.trimStart cs
    match ← r.classify type with
    | .symbol => readSymbol text cs
    | .number | .bool | .nodeId => readNumber cs
    | .record =>
      match r.record? type.name, inner with
      | none, _ => .error (.unknownType type.name)
      | some _, none => .error (faultAt text .trailingInput cs)
      | some fields, some read => readRecord text read fields cs
    | .union =>
      match r.union? type.name, inner with
      | none, _ => .error (.unknownType type.name)
      | some _, none => .error (faultAt text .trailingInput cs)
      | some branches, some read => readBranch text read type.name branches cs

/-- A value of the given type, with records and branches nested to `fuel` at most. -/
def readValue (r : Registry) (text : String) : Nat → ReadType
  | 0 => readClassified r text none
  | fuel + 1 => readClassified r text (some (readValue r text fuel))

/-- The text of one field of a fact file as a value of the given type. A symbol is the text as it
is; a record or a branch takes at least one character, which bounds their nesting. -/
def parse (r : Registry) (type : ColumnType) (text : String) : Except Error FactValue := do
  match ← r.classify type with
  | .symbol => return symbol text
  | .number | .bool | .nodeId => parseNumber (Text.trim text.toList)
  | .record | .union =>
    let (v, rest) ← readValue r text (text.length + 1) type text.toList
    let rest := Text.trimStart rest
    if rest.isEmpty then return v else .error (faultAt text .trailingInput rest)

end TreeFacts.FactValue
