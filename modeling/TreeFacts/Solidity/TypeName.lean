import TreeFacts.Text.Basic

namespace TreeFacts.Solidity

/-- The data locations that may end a type string, each before those it ends with. -/
def locations : List String :=
  [" storage ref", " storage pointer", " memory", " calldata", " storage"]

/-- A type string without the data location at its end. -/
def dropLocation (type : List Char) : List Char :=
  ((locations.map String.toList).findSome? fun l => Text.dropBack? l type).getD type

/-- The interface's name for a type without dimensions. A struct keeps its own, since its members
are not known here. -/
def canonicalBase (base : List Char) : List Char :=
  if "contract ".toList.isPrefixOf base ∨ base = "address payable".toList then "address".toList
  else if "enum ".toList.isPrefixOf base then "uint8".toList
  else match Text.dropFront? "struct ".toList base with
    | some name => name
    | none => if "function ".toList.isPrefixOf base then "function".toList else base

/-- The interface's name for the type that a compiler's type string describes. -/
def canonicalType (type : String) : String :=
  let type := dropLocation (Text.trim type.toList)
  String.ofList (canonicalBase (type.takeWhile (· ≠ '[')) ++ type.dropWhile (· ≠ '['))

/-- Whether a type string is that of a function outside the contract. -/
def isExternalFunction (type : String) : Bool :=
  "function".toList.isPrefixOf type.toList && Text.occursIn " external".toList type.toList

end TreeFacts.Solidity
