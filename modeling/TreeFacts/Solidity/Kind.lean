import TreeFacts.Grammar
import TreeFacts.Tree.Basic

namespace TreeFacts.Solidity

/-- The name of the root kind. -/
def root : String := "Node"

/-- The abstract kinds with their bases. -/
def abstractKinds : List (String × String) :=
  [("Expression", root), ("PrimaryExpression", "Expression"), ("Statement", root),
   ("StatementWithChildren", "Statement"), ("TypeName", root)]

/-- The keyword enumerations of Solidity fields. -/
def enums : List String :=
  ["ContractKind", "LiteralKind", "FunctionCallKind", "DataLocation", "Mutability",
   "FunctionStateMutability", "FunctionKind", "ModifierInvocationKind", "StateVariableVisibility",
   "FunctionVisibility", "ElementaryTypeNameMutability", "SubdenominationT"]

/-- The concrete kinds of Solidity syntax-tree nodes. -/
inductive Kind where
  | sourceUnit
  | pragmaDirective
  | importDirective
  | inheritanceSpecifier
  | modifierInvocation
  | overrideSpecifier
  | parameterList
  | usingForDirective
  | identifierPath
  | structuredDocumentation
  | contractDefinition
  | functionDefinition
  | modifierDefinition
  | eventDefinition
  | errorDefinition
  | structDefinition
  | enumDefinition
  | enumValue
  | userDefinedValueTypeDefinition
  | variableDeclaration
  | elementaryTypeName
  | userDefinedTypeName
  | arrayTypeName
  | mapping
  | functionTypeName
  | block
  | uncheckedBlock
  | expressionStatement
  | variableDeclarationStatement
  | ifStatement
  | forStatement
  | whileStatement
  | doWhileStatement
  | returnStatement
  | emitStatement
  | revertStatement
  | breakStatement
  | continueStatement
  | placeholderStatement
  | throw
  | tryStatement
  | tryCatchClause
  | inlineAssembly
  | assignment
  | binaryOperation
  | unaryOperation
  | conditional
  | functionCall
  | functionCallOptions
  | indexAccess
  | indexRangeAccess
  | memberAccess
  | newExpression
  | tupleExpression
  | elementaryTypeNameExpression
  | identifier
  | literal
  deriving DecidableEq, Repr

namespace Kind

/-- Every kind, in grammar order. -/
def all : List Kind :=
  [.sourceUnit, .pragmaDirective, .importDirective, .inheritanceSpecifier, .modifierInvocation,
   .overrideSpecifier, .parameterList, .usingForDirective, .identifierPath,
   .structuredDocumentation, .contractDefinition, .functionDefinition, .modifierDefinition,
   .eventDefinition, .errorDefinition, .structDefinition, .enumDefinition, .enumValue,
   .userDefinedValueTypeDefinition, .variableDeclaration, .elementaryTypeName,
   .userDefinedTypeName, .arrayTypeName, .mapping, .functionTypeName, .block, .uncheckedBlock,
   .expressionStatement, .variableDeclarationStatement, .ifStatement, .forStatement,
   .whileStatement, .doWhileStatement, .returnStatement, .emitStatement, .revertStatement,
   .breakStatement, .continueStatement, .placeholderStatement, .throw, .tryStatement,
   .tryCatchClause, .inlineAssembly, .assignment, .binaryOperation, .unaryOperation, .conditional,
   .functionCall, .functionCallOptions, .indexAccess, .indexRangeAccess, .memberAccess,
   .newExpression, .tupleExpression, .elementaryTypeNameExpression, .identifier, .literal]

def name : Kind → String
  | .sourceUnit => "SourceUnit"
  | .pragmaDirective => "PragmaDirective"
  | .importDirective => "ImportDirective"
  | .inheritanceSpecifier => "InheritanceSpecifier"
  | .modifierInvocation => "ModifierInvocation"
  | .overrideSpecifier => "OverrideSpecifier"
  | .parameterList => "ParameterList"
  | .usingForDirective => "UsingForDirective"
  | .identifierPath => "IdentifierPath"
  | .structuredDocumentation => "StructuredDocumentation"
  | .contractDefinition => "ContractDefinition"
  | .functionDefinition => "FunctionDefinition"
  | .modifierDefinition => "ModifierDefinition"
  | .eventDefinition => "EventDefinition"
  | .errorDefinition => "ErrorDefinition"
  | .structDefinition => "StructDefinition"
  | .enumDefinition => "EnumDefinition"
  | .enumValue => "EnumValue"
  | .userDefinedValueTypeDefinition => "UserDefinedValueTypeDefinition"
  | .variableDeclaration => "VariableDeclaration"
  | .elementaryTypeName => "ElementaryTypeName"
  | .userDefinedTypeName => "UserDefinedTypeName"
  | .arrayTypeName => "ArrayTypeName"
  | .mapping => "Mapping"
  | .functionTypeName => "FunctionTypeName"
  | .block => "Block"
  | .uncheckedBlock => "UncheckedBlock"
  | .expressionStatement => "ExpressionStatement"
  | .variableDeclarationStatement => "VariableDeclarationStatement"
  | .ifStatement => "IfStatement"
  | .forStatement => "ForStatement"
  | .whileStatement => "WhileStatement"
  | .doWhileStatement => "DoWhileStatement"
  | .returnStatement => "Return"
  | .emitStatement => "EmitStatement"
  | .revertStatement => "RevertStatement"
  | .breakStatement => "Break"
  | .continueStatement => "Continue"
  | .placeholderStatement => "PlaceholderStatement"
  | .throw => "Throw"
  | .tryStatement => "TryStatement"
  | .tryCatchClause => "TryCatchClause"
  | .inlineAssembly => "InlineAssembly"
  | .assignment => "Assignment"
  | .binaryOperation => "BinaryOperation"
  | .unaryOperation => "UnaryOperation"
  | .conditional => "Conditional"
  | .functionCall => "FunctionCall"
  | .functionCallOptions => "FunctionCallOptions"
  | .indexAccess => "IndexAccess"
  | .indexRangeAccess => "IndexRangeAccess"
  | .memberAccess => "MemberAccess"
  | .newExpression => "NewExpression"
  | .tupleExpression => "TupleExpression"
  | .elementaryTypeNameExpression => "ElementaryTypeNameExpression"
  | .identifier => "Identifier"
  | .literal => "Literal"

/-- The kind with the given name. -/
def ofName (name : String) : Except TreeError Kind :=
  match all.find? (·.name == name) with
  | some kind => .ok kind
  | none => .error (.unknownNodeKind name)

/-- The kind directly above, which is abstract or the root. -/
def base : Kind → String
  | .assignment | .binaryOperation | .unaryOperation | .conditional | .functionCall
    | .functionCallOptions | .indexAccess | .indexRangeAccess | .memberAccess | .newExpression
    | .tupleExpression =>
    "Expression"
  | .elementaryTypeNameExpression | .identifier | .literal =>
    "PrimaryExpression"
  | .block | .uncheckedBlock =>
    "StatementWithChildren"
  | .expressionStatement | .variableDeclarationStatement | .ifStatement | .forStatement
    | .whileStatement | .doWhileStatement | .returnStatement | .emitStatement
    | .revertStatement | .breakStatement | .continueStatement | .placeholderStatement | .throw
    | .tryStatement | .inlineAssembly =>
    "Statement"
  | .elementaryTypeName | .userDefinedTypeName | .arrayTypeName | .mapping | .functionTypeName =>
    "TypeName"
  | .sourceUnit | .pragmaDirective | .importDirective | .inheritanceSpecifier
    | .modifierInvocation | .overrideSpecifier | .parameterList | .usingForDirective
    | .identifierPath | .structuredDocumentation | .contractDefinition | .functionDefinition
    | .modifierDefinition | .eventDefinition | .errorDefinition | .structDefinition
    | .enumDefinition | .enumValue | .userDefinedValueTypeDefinition | .variableDeclaration
    | .tryCatchClause =>
    root

def isExpression (k : Kind) : Bool := k.base == "Expression" || k.base == "PrimaryExpression"

def expressionRef : SemanticType := .node "Expression"

def statementRef : SemanticType := .node "Statement"

def typeNameRef : SemanticType := .node "TypeName"

def parameterListRef : SemanticType := .node "ParameterList"

def typeStringField : Field := ⟨"typeString", .scalar, .text⟩

/-- The fields, named as in the compiler's compact JSON trees, with the type string of an
expression on the node itself. -/
def fields : Kind → List Field
  | .sourceUnit =>
    [⟨"absolutePath", .scalar, .text⟩, ⟨"exportedSymbols", .map, .anyNode⟩,
     ⟨"license", .optional, .text⟩]
  | .pragmaDirective =>
    [⟨"literals", .array, .text⟩]
  | .importDirective =>
    [⟨"file", .scalar, .text⟩, ⟨"absolutePath", .scalar, .text⟩, ⟨"unitAlias", .scalar, .text⟩,
     ⟨"scope", .scalar, .node "SourceUnit"⟩, ⟨"sourceUnit", .scalar, .node "SourceUnit"⟩]
  | .inheritanceSpecifier =>
    [⟨"baseName", .scalar, .nodeUnion ["UserDefinedTypeName", "IdentifierPath"]⟩,
     ⟨"arguments", .array, expressionRef⟩]
  | .modifierInvocation =>
    [⟨"modifierName", .scalar, .nodeUnion ["Identifier", "IdentifierPath"]⟩,
     ⟨"arguments", .array, expressionRef⟩,
     ⟨"kind", .optional, .enumeration "ModifierInvocationKind"⟩]
  | .overrideSpecifier =>
    [⟨"overrides", .array, .anyNode⟩]
  | .parameterList =>
    [⟨"parameters", .array, .node "VariableDeclaration"⟩]
  | .usingForDirective =>
    [⟨"libraryName", .optional, .nodeUnion ["UserDefinedTypeName", "IdentifierPath"]⟩,
     ⟨"typeName", .optional, typeNameRef⟩, ⟨"global", .scalar, .bool⟩]
  | .identifierPath =>
    [⟨"name", .scalar, .text⟩, ⟨"referencedDeclaration", .scalar, .anyNode⟩]
  | .structuredDocumentation =>
    [⟨"text", .scalar, .text⟩]
  | .contractDefinition =>
    [⟨"name", .scalar, .text⟩, ⟨"scope", .scalar, .node "SourceUnit"⟩,
     ⟨"contractKind", .scalar, .enumeration "ContractKind"⟩, ⟨"abstract", .scalar, .bool⟩,
     ⟨"fullyImplemented", .scalar, .bool⟩,
     ⟨"linearizedBaseContracts", .recordList, .node "ContractDefinition"⟩,
     ⟨"usedErrors", .array, .node "ErrorDefinition"⟩,
     ⟨"usedEvents", .array, .node "EventDefinition"⟩,
     ⟨"baseContracts", .array, .node "InheritanceSpecifier"⟩,
     ⟨"documentation", .optional, .node "StructuredDocumentation"⟩]
  | .functionDefinition =>
    [⟨"name", .scalar, .text⟩, ⟨"scope", .scalar, .anyNode⟩,
     ⟨"kind", .scalar, .enumeration "FunctionKind"⟩,
     ⟨"stateMutability", .scalar, .enumeration "FunctionStateMutability"⟩,
     ⟨"virtual", .scalar, .bool⟩, ⟨"visibility", .scalar, .enumeration "FunctionVisibility"⟩,
     ⟨"implemented", .scalar, .bool⟩, ⟨"parameters", .scalar, parameterListRef⟩,
     ⟨"returnParameters", .scalar, parameterListRef⟩,
     ⟨"modifiers", .array, .node "ModifierInvocation"⟩,
     ⟨"overrides", .optional, .node "OverrideSpecifier"⟩, ⟨"body", .optional, .node "Block"⟩,
     ⟨"functionSelector", .optional, .text⟩,
     ⟨"documentation", .optional, .node "StructuredDocumentation"⟩]
  | .modifierDefinition =>
    [⟨"name", .scalar, .text⟩, ⟨"virtual", .scalar, .bool⟩,
     ⟨"visibility", .scalar, .enumeration "FunctionVisibility"⟩,
     ⟨"parameters", .scalar, parameterListRef⟩,
     ⟨"overrides", .optional, .node "OverrideSpecifier"⟩, ⟨"body", .optional, .node "Block"⟩]
  | .eventDefinition =>
    [⟨"name", .scalar, .text⟩, ⟨"anonymous", .scalar, .bool⟩,
     ⟨"parameters", .scalar, parameterListRef⟩]
  | .errorDefinition =>
    [⟨"name", .scalar, .text⟩, ⟨"parameters", .scalar, parameterListRef⟩]
  | .structDefinition =>
    [⟨"name", .scalar, .text⟩, ⟨"canonicalName", .scalar, .text⟩, ⟨"scope", .scalar, .anyNode⟩,
     ⟨"visibility", .scalar, .text⟩, ⟨"members", .array, .node "VariableDeclaration"⟩]
  | .enumDefinition =>
    [⟨"name", .scalar, .text⟩, ⟨"canonicalName", .scalar, .text⟩,
     ⟨"members", .array, .node "EnumValue"⟩]
  | .enumValue =>
    [⟨"name", .scalar, .text⟩]
  | .userDefinedValueTypeDefinition =>
    [⟨"name", .scalar, .text⟩, ⟨"underlyingType", .scalar, .node "ElementaryTypeName"⟩]
  | .variableDeclaration =>
    [⟨"name", .scalar, .text⟩, ⟨"constant", .scalar, .bool⟩, ⟨"indexed", .optional, .bool⟩,
     ⟨"scope", .scalar, .anyNode⟩, ⟨"stateVariable", .scalar, .bool⟩,
     ⟨"storageLocation", .scalar, .enumeration "DataLocation"⟩,
     ⟨"visibility", .scalar, .enumeration "StateVariableVisibility"⟩,
     ⟨"mutability", .scalar, .enumeration "Mutability"⟩, typeStringField,
     ⟨"typeName", .optional, typeNameRef⟩, ⟨"overrides", .optional, .node "OverrideSpecifier"⟩,
     ⟨"value", .optional, expressionRef⟩, ⟨"functionSelector", .optional, .text⟩,
     ⟨"documentation", .optional, .node "StructuredDocumentation"⟩]
  | .elementaryTypeName =>
    [⟨"name", .scalar, .text⟩, typeStringField,
     ⟨"stateMutability", .optional, .enumeration "ElementaryTypeNameMutability"⟩]
  | .userDefinedTypeName =>
    [⟨"name", .optional, .text⟩, ⟨"referencedDeclaration", .scalar, .anyNode⟩,
     ⟨"pathNode", .optional, .node "IdentifierPath"⟩, typeStringField]
  | .arrayTypeName =>
    [⟨"baseType", .scalar, typeNameRef⟩, ⟨"length", .optional, expressionRef⟩, typeStringField]
  | .mapping =>
    [⟨"keyType", .scalar, typeNameRef⟩, ⟨"valueType", .scalar, typeNameRef⟩, typeStringField]
  | .functionTypeName =>
    [⟨"visibility", .scalar, .enumeration "FunctionVisibility"⟩,
     ⟨"stateMutability", .scalar, .enumeration "FunctionStateMutability"⟩,
     ⟨"parameterTypes", .scalar, parameterListRef⟩,
     ⟨"returnParameterTypes", .scalar, parameterListRef⟩, typeStringField]
  | .block | .uncheckedBlock =>
    [⟨"statements", .array, statementRef⟩]
  | .expressionStatement =>
    [⟨"expression", .scalar, expressionRef⟩]
  | .variableDeclarationStatement =>
    [⟨"assignments", .sparseArray, .node "VariableDeclaration"⟩,
     ⟨"declarations", .sparseArray, .node "VariableDeclaration"⟩,
     ⟨"initialValue", .optional, expressionRef⟩]
  | .ifStatement =>
    [⟨"condition", .scalar, expressionRef⟩, ⟨"trueBody", .scalar, statementRef⟩,
     ⟨"falseBody", .optional, statementRef⟩]
  | .forStatement =>
    [⟨"initializationExpression", .optional,
       .nodeUnion ["ExpressionStatement", "VariableDeclarationStatement"]⟩,
     ⟨"condition", .optional, expressionRef⟩,
     ⟨"loopExpression", .optional, .node "ExpressionStatement"⟩, ⟨"body", .scalar, statementRef⟩]
  | .whileStatement | .doWhileStatement =>
    [⟨"condition", .scalar, expressionRef⟩, ⟨"body", .scalar, statementRef⟩]
  | .returnStatement =>
    [⟨"expression", .optional, expressionRef⟩, ⟨"functionReturnParameters", .scalar, .anyNode⟩]
  | .emitStatement =>
    [⟨"eventCall", .scalar, .node "FunctionCall"⟩]
  | .revertStatement =>
    [⟨"errorCall", .scalar, .node "FunctionCall"⟩]
  | .breakStatement | .continueStatement | .placeholderStatement | .throw | .inlineAssembly => []
  | .tryStatement =>
    [⟨"externalCall", .scalar, .node "FunctionCall"⟩, ⟨"clauses", .array, .node "TryCatchClause"⟩]
  | .tryCatchClause =>
    [⟨"errorName", .scalar, .text⟩, ⟨"parameters", .optional, parameterListRef⟩,
     ⟨"block", .scalar, .node "Block"⟩]
  | .assignment =>
    [⟨"operator", .scalar, .text⟩, ⟨"leftHandSide", .scalar, expressionRef⟩,
     ⟨"rightHandSide", .scalar, expressionRef⟩, typeStringField]
  | .binaryOperation =>
    [⟨"operator", .scalar, .text⟩, ⟨"leftExpression", .scalar, expressionRef⟩,
     ⟨"rightExpression", .scalar, expressionRef⟩, ⟨"function", .optional, .anyNode⟩,
     typeStringField]
  | .unaryOperation =>
    [⟨"prefix", .scalar, .bool⟩, ⟨"operator", .scalar, .text⟩,
     ⟨"subExpression", .scalar, expressionRef⟩, ⟨"function", .optional, .anyNode⟩,
     typeStringField]
  | .conditional =>
    [⟨"condition", .scalar, expressionRef⟩, ⟨"trueExpression", .scalar, expressionRef⟩,
     ⟨"falseExpression", .scalar, expressionRef⟩, typeStringField]
  | .functionCall =>
    [⟨"kind", .scalar, .enumeration "FunctionCallKind"⟩, ⟨"expression", .scalar, expressionRef⟩,
     ⟨"arguments", .array, expressionRef⟩, ⟨"names", .array, .text⟩, ⟨"tryCall", .scalar, .bool⟩,
     typeStringField]
  | .functionCallOptions =>
    [⟨"expression", .scalar, expressionRef⟩, ⟨"options", .map, expressionRef⟩, typeStringField]
  | .indexAccess =>
    [⟨"baseExpression", .scalar, expressionRef⟩, ⟨"indexExpression", .optional, expressionRef⟩,
     typeStringField]
  | .indexRangeAccess =>
    [⟨"baseExpression", .scalar, expressionRef⟩, ⟨"startExpression", .optional, expressionRef⟩,
     ⟨"endExpression", .optional, expressionRef⟩, typeStringField]
  | .memberAccess =>
    [⟨"expression", .scalar, expressionRef⟩, ⟨"memberName", .scalar, .text⟩,
     ⟨"referencedDeclaration", .scalar, .anyNode⟩, typeStringField]
  | .newExpression =>
    [⟨"typeName", .scalar, typeNameRef⟩, typeStringField]
  | .tupleExpression =>
    [⟨"isInlineArray", .scalar, .bool⟩, ⟨"components", .sparseArray, expressionRef⟩,
     typeStringField]
  | .elementaryTypeNameExpression =>
    [⟨"typeName", .scalar, .nodeOrKeyword "ElementaryTypeName"⟩, typeStringField]
  | .identifier =>
    [⟨"name", .scalar, .text⟩, ⟨"referencedDeclaration", .scalar, .anyNode⟩, typeStringField]
  | .literal =>
    [⟨"kind", .scalar, .enumeration "LiteralKind"⟩, ⟨"value", .optional, .text⟩,
     ⟨"hexValue", .scalar, .text⟩,
     ⟨"subdenomination", .optional, .enumeration "SubdenominationT"⟩, typeStringField]

def toNodeKind (k : Kind) : NodeKind := .concrete k.name k.base k.fields

end Kind

/-- The whole grammar: abstract kinds, then concrete ones. -/
def grammar : Grammar where
  root := root
  enums := enums
  kinds :=
    abstractKinds.map (fun (name, base) => .abstract name base) ++ Kind.all.map Kind.toNodeKind

end TreeFacts.Solidity
