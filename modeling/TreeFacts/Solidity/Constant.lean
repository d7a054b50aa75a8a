import TreeFacts.Solidity.Kind

namespace TreeFacts.Solidity

mutual

/-- Whether an expression is built from literals alone, all of them embedded. -/
def isConstant : Node → Bool
  | .mk _ _ kind fields =>
    match Kind.ofName kind with
    | .ok .literal => true
    | .ok .unaryOperation => isConstantOperand "subExpression" fields
    | .ok .binaryOperation =>
      isConstantOperand "leftExpression" fields && isConstantOperand "rightExpression" fields
    | .ok .conditional =>
      isConstantOperand "condition" fields && isConstantOperand "trueExpression" fields &&
        isConstantOperand "falseExpression" fields
    | .ok .tupleExpression => areConstantOperands "components" fields
    | .ok .functionCall =>
      (fields.lookup "kind").bind Value.text? == some "typeConversion" &&
        areConstantOperands "arguments" fields
    | _ => false

/-- Whether the named field holds a constant expression. -/
def isConstantOperand (name : String) : List (String × Value) → Bool
  | [] => false
  | (key, v) :: rest =>
    if name == key then isConstantValue v else isConstantOperand name rest

/-- Whether the named field holds constant expressions, at least one and nothing else. -/
def areConstantOperands (name : String) : List (String × Value) → Bool
  | [] => false
  | (key, .list items) :: rest =>
    if name == key then !items.isEmpty && areConstantValues items
    else areConstantOperands name rest
  | (key, _) :: rest => if name == key then false else areConstantOperands name rest

def isConstantValue : Value → Bool
  | .node n => isConstant n
  | _ => false

def areConstantValues : List Value → Bool
  | [] => true
  | v :: rest => isConstantValue v && areConstantValues rest

end

end TreeFacts.Solidity
