import TreeFacts.Keccak
import TreeFacts.Solidity.TypeName
import TreeFacts.Tree.Basic

namespace TreeFacts

namespace Node

def text? (n : Node) (field : String) : Option String := (n.field? field).bind Value.text?

def child? (n : Node) (field : String) : Option Node := (n.field? field).bind Value.node?

/-- The elements of a list field; those that are no embedded nodes are missing. -/
def listed (n : Node) (field : String) : List (Option Node) :=
  match n.field? field with
  | some (.list items) => items.map Value.node?
  | _ => []

end Node

namespace Solidity

def signature (name : String) (types : List String) : String :=
  name ++ "(" ++ ",".intercalate types ++ ")"

/-- The signature of a public or external function with a name. -/
def functionSignature? (n : Node) : Option String := do
  guard (n.text? "kind" = some "function")
  let visibility ← n.text? "visibility"
  guard (visibility = "public" ∨ visibility = "external")
  let name ← n.name?
  guard (name ≠ "")
  let parameters ← n.child? "parameters"
  let types ← (parameters.listed "parameters").mapM fun p? => p?.bind fun p => p.text? "typeString"
  return signature name (types.map canonicalType)

mutual

/-- The parameters of the getter for a variable of the given type: a key for each level of mapping,
an index for each dimension of an array. -/
def getterTypes? : Node → Option (List String)
  | .mk _ _ kind fields =>
    if kind = "Mapping" then do
      let key ← (fields.lookup "keyType").bind Value.node?
      let type ← key.text? "typeString"
      return canonicalType type :: (← getterTypesIn? "valueType" fields)
    else if kind = "ArrayTypeName" then do
      return "uint256" :: (← getterTypesIn? "baseType" fields)
    else some []

/-- The parameters for the type in the named field, none if there is no type. -/
def getterTypesIn? (name : String) : List (String × Value) → Option (List String)
  | [] => some []
  | (key, .node n) :: rest => if name == key then getterTypes? n else getterTypesIn? name rest
  | (key, _) :: rest => if name == key then some [] else getterTypesIn? name rest

end

/-- The signature of a public state variable's getter. -/
def getterSignature? (n : Node) : Option String := do
  guard ((n.field? "stateVariable").bind Value.bool? = some true)
  guard (n.text? "visibility" = some "public")
  let name ← n.name?
  return signature name (← getterTypesIn? "typeName" n.fields)

def hexByte (b : UInt8) : List Char :=
  let digits := Nat.toDigits 16 b.toNat
  if digits.length = 1 then '0' :: digits else digits

/-- The selector of a function: the one the compiler recorded, or else the first four bytes of the
signature's digest. -/
def selector (n : Node) (signature : String) : String :=
  match n.text? "functionSelector" with
  | some recorded => if recorded = "" then computed else recorded
  | none => computed
where
  computed : String :=
    String.ofList (((Keccak.digest signature.toUTF8.toList).take 4).flatMap hexByte)

end Solidity

end TreeFacts
