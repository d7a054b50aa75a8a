import TreeFacts.Fact.Value
import TreeFacts.Text.Printable
import TreeFacts.Tree.Basic
import TreeFacts.Types.Basic

namespace TreeFacts

/-- What makes a grammar or a set of type definitions unusable. -/
inductive GrammarFault where
  | typeDefinedTwice (name : String)
  | kindShadowsRoot (kind : String)
  | kindDeclaredTwice (kind : String)
  | cyclicBases (kind : String)
  | undeclaredBase (kind base : String)
  | relationDerivedTwice (name : String)
  deriving DecidableEq

namespace GrammarFault

def message : GrammarFault → String
  | typeDefinedTwice name => "type " ++ name ++ " defined twice"
  | kindShadowsRoot kind => "kind " ++ kind ++ " shadows the root"
  | kindDeclaredTwice kind => "kind " ++ kind ++ " declared twice"
  | cyclicBases kind => "base chain of " ++ kind ++ " is cyclic"
  | undeclaredBase kind base => "kind " ++ kind ++ " has undeclared base " ++ base
  | relationDerivedTwice name => "relation " ++ name ++ " derived twice"

end GrammarFault

/-- How a field's value fails to fit its descriptor. A column type is given where the value stands
inside a record or a tagged union. -/
inductive FieldFault where
  | hole (index : Nat)
  | noMap
  | noList
  | noListType (type : ColumnType)
  | noAbsentValue
  | noNumber (type : Option ColumnType)
  | noBoolean (type : Option ColumnType)
  | noText (type : Option ColumnType)
  | noKeyword
  | noReference (type : Option ColumnType)
  | unnamedNode (id : NodeId)
  | noNodeOrKeyword
  | noBranch (union : String)
  | unknownBranch (tag union : String)
  | missingArguments (tag : String)
  | fieldCount (expected : Nat) (owner : String)
  deriving DecidableEq

namespace FieldFault

/-- What was expected, and the type it was expected for if that is given. -/
def expected (what : String) : Option ColumnType → String
  | some type => "expected " ++ what ++ " for " ++ type.name
  | none => "expected " ++ what

def message : FieldFault → String
  | hole index => "hole at index " ++ toString index ++ " of a dense array"
  | noMap => "expected a map"
  | noList => "expected a list"
  | noListType type => type.name ++ " is not a list type"
  | noAbsentValue => "tagged unions have no absent value"
  | noNumber type => expected "a number" type
  | noBoolean type => expected "a boolean" type
  | noText type => expected "text" type
  | noKeyword => "expected an enumeration symbol"
  | noReference none => "expected a node or node identifier"
  | noReference type => expected "a node" type
  | unnamedNode id => "node " ++ Text.showInt64 id ++ " has no name"
  | noNodeOrKeyword => "expected a node or keyword"
  | noBranch union => "expected a branch of " ++ union
  | unknownBranch tag union => tag ++ " is not a branch of " ++ union
  | missingArguments tag => tag ++ " needs arguments"
  | fieldCount expected owner => "expected " ++ toString expected ++ " fields for " ++ owner

end FieldFault

/-- What a place in the text of a record or a tagged union fails to hold. -/
inductive ValueFault where
  | trailingInput
  | unterminatedSymbol
  | expected (token : String)
  | unknownBranch (tag union : String)
  | missingArguments (tag : String)
  deriving DecidableEq

namespace ValueFault

def message : ValueFault → String
  | trailingInput => "trailing input"
  | unterminatedSymbol => "unterminated symbol"
  | expected token => "expected " ++ Text.quoted token
  | unknownBranch tag union => "unknown branch " ++ tag ++ " of " ++ union
  | missingArguments tag => "branch " ++ tag ++ " takes arguments"

end ValueFault

/-- Why text, or a value that was read from text, cannot be understood. -/
inductive ParseFault where
  | noNumber (text : String)
  /-- a fault at a byte offset of a value's text -/
  | value (fault : ValueFault) (offset : Nat) (text : String)
  | span (text : String)
  | afterQuote (c : Char)
  | unterminatedQuote
  /-- a row, counted from one, of another width than its relation -/
  | rowWidth (relation : String) (row expected found : Nat)
  | misfit (value : FactValue) (type : ColumnType)
  | malformedCell (type : String)
  | recordWidth (type : String) (expected found : Nat)
  | noFieldType (part : String)
  | unterminatedComponent (name : String)
  | unknownComponent (name : String)
  | selfInstantiation (name : String)
  | typeArguments (component : String) (expected found : Nat)
  deriving DecidableEq

namespace ParseFault

def message : ParseFault → String
  | noNumber text => "expected a number, found " ++ Text.quoted text
  | value fault offset text =>
    fault.message ++ " at offset " ++ toString offset ++ " in " ++ Text.quoted text
  | span text => "source location " ++ text
  | afterQuote c => "unexpected " ++ Text.quotedChar c ++ " after closing quote"
  | unterminatedQuote => "unterminated quoted field"
  | rowWidth relation row expected found =>
    relation ++ ".csv line " ++ toString row ++ ": expected " ++ toString expected ++
      " fields, found " ++ toString found
  | misfit v type => "value " ++ v.render ++ " does not fit column type " ++ type.name
  | malformedCell type => "malformed " ++ type ++ " cell"
  | recordWidth type expected found =>
    type ++ " expects " ++ toString expected ++ " fields, found " ++ toString found
  | noFieldType part => "expected `name: type`, found " ++ Text.quoted part
  | unterminatedComponent name => "unterminated component " ++ name
  | unknownComponent name => "unknown component " ++ name
  | selfInstantiation name => "component " ++ name ++ " instantiates itself"
  | typeArguments component expected found =>
    "component " ++ component ++ " takes " ++ toString expected ++ " type arguments, found " ++
      toString found

end ParseFault

inductive ConfigFault where
  | compilerVersion (text : String)
  | environment (name text : String)
  deriving DecidableEq

namespace ConfigFault

def message : ConfigFault → String
  | compilerVersion text => "invalid compiler version: " ++ text
  | environment name text => name ++ ": invalid value " ++ Text.quoted text

end ConfigFault

/-- Everything that can stop the way from trees to facts and back. -/
inductive Error where
  | io
  | json
  | unknownType (name : String)
  /-- a name that is no kind of the grammar -/
  | unknownKindType (kind : String)
  | invalidGrammar (fault : GrammarFault)
  | unknownNodeKind (kind : String)
  | identifierConflict (id : NodeId)
  | fieldType (kind field : String) (fault : FieldFault)
  | unknownRelation (name : String)
  | arityMismatch (relation : String) (expected actual : Nat)
  | parse (fault : ParseFault)
  | engineFailure (status stderr : String)
  | missingOutput (relation : String)
  | compilerNotFound (command : String)
  | compile (stderr : String)
  | danglingReference (id : NodeId)
  /-- a placeholder whose index or accessor path leads nowhere -/
  | placeholder (index : Nat) (path : String)
  | config (fault : ConfigFault)
  deriving DecidableEq

namespace Error

def message : Error → String
  | io => "IO error"
  | json => "JSON error"
  | unknownType name => "unknown type: " ++ name
  | unknownKindType kind => "unknown type: node kind " ++ kind
  | invalidGrammar fault => "invalid grammar: " ++ fault.message
  | unknownNodeKind kind => "unknown node kind: " ++ kind
  | identifierConflict id => "identifier conflict on node " ++ Text.showInt64 id
  | fieldType kind field fault => "field " ++ kind ++ "." ++ field ++ ": " ++ fault.message
  | unknownRelation name => "unknown relation: " ++ name
  | arityMismatch relation expected actual =>
    "arity mismatch for " ++ relation ++ ": expected " ++ toString expected ++ " columns, got " ++
      toString actual
  | parse fault => "parse error: " ++ fault.message
  | engineFailure status stderr => "engine failed (" ++ status ++ "): " ++ stderr
  | missingOutput relation => "engine produced no output for relation " ++ relation
  | compilerNotFound command => "Soufflé not found: " ++ command
  | compile stderr => "rule program failed to compile: " ++ stderr
  | danglingReference id => "dangling reference to node " ++ Text.showInt64 id
  | placeholder index path =>
    "cannot resolve \x7b" ++ toString index ++ "\x7d" ++ path ++ " in template"
  | config fault => "configuration error: " ++ fault.message

/-- A fault of a tree, where facts are made from it. -/
def ofTree : TreeError → Error
  | .unknownNodeKind name => unknownNodeKind name
  | .duplicateId id => identifierConflict id
  | .invalidSpan text => parse (.span text)
  | .json => json

end Error

end TreeFacts
