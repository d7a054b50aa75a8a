import TreeFacts.Schema.Basic
import TreeFacts.Solidity.Constant
import TreeFacts.Solidity.Signature
import TreeFacts.Solidity.Version

namespace TreeFacts.Solidity

/-- Whether a node calls a function outside the contract. -/
def isExternalCall (n : Node) : Bool :=
  n.text? "kind" == some "functionCall" &&
    match (n.child? "expression").bind fun callee => callee.text? "typeString" with
    | some type => isExternalFunction type
    | none => false

/-- The signature of a node with its selector. -/
def signatureFacts (n : Node) (kind : String) (signature? : Option String) : List Fact :=
  match signature? with
  | some signature =>
    [(kind ++ "_signature", [.number n.id, .symbol signature]),
     (kind ++ "_signatureHash", [.number n.id, .symbol (selector n signature)])]
  | none => []

/-- The facts that a node's own fields give. -/
def nodeFacts (n : Node) : List Fact :=
  match Kind.ofName n.kind with
  | .error _ => []
  | .ok kind =>
    (if kind.isExpression && isConstant n then [("ConstantExpression", [.number n.id])] else []) ++
      match kind with
      | .functionCall => if isExternalCall n then [("externalCall", [.number n.id])] else []
      | .functionDefinition => signatureFacts n "FunctionDefinition" (functionSignature? n)
      | .variableDeclaration => signatureFacts n "VariableDeclaration" (getterSignature? n)
      | _ => []

def versionFacts (version? : Option Version) : List Fact :=
  match version? with
  | some v =>
    [("CompilerVersion", [v.major, v.minor, v.patch].map fun part => .number part.toUInt64.toInt64)]
  | none => []

def declareRelations (r : Registry) : Except Error (List Relation × Registry) := do
  let (expression, r) ← r.identifierType "Expression"
  let (call, r) ← r.identifierType "FunctionCall"
  let (function, r) ← r.identifierType "FunctionDefinition"
  let (declaration, r) ← r.identifierType "VariableDeclaration"
  return ([⟨"ConstantExpression", [("id", expression)]⟩,
    ⟨"externalCall", [("id", call)]⟩,
    ⟨"FunctionDefinition_signature", [("id", function), ("signature", .symbol)]⟩,
    ⟨"FunctionDefinition_signatureHash", [("id", function), ("hash", .symbol)]⟩,
    ⟨"VariableDeclaration_signature", [("id", declaration), ("signature", .symbol)]⟩,
    ⟨"VariableDeclaration_signatureHash", [("id", declaration), ("hash", .symbol)]⟩,
    ⟨"CompilerVersion", [("major", .number), ("minor", .number), ("patch", .number)]⟩], r)

/-- Constant expressions, external calls and signatures, and the compiler's version if it is
known. -/
def enrichment (version? : Option Version) : Enrichment :=
  ⟨declareRelations, nodeFacts, versionFacts version?⟩

end TreeFacts.Solidity
