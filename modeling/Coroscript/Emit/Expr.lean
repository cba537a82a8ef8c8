import Coroscript.Cpp.Literal
import Coroscript.Name.Table
import Coroscript.Tree.Expr

namespace Coroscript.Emit

/-! The text of expressions. It depends on the names in use and changes none. -/

/-- How tightly the text of a binary operator holds in the output, where logical
and comparison operators have levels of their own and a percent sign is a
multiplication. A power is a call and holds tightest. -/
def precedence : TokenKind → Nat
  | .or => 1
  | .and => 2
  | .equals | .notEquals => 3
  | .less | .lessEquals | .greater | .greaterEquals => 4
  | .plus | .dash => 6
  | .star | .slash | .percent => 7
  | _ => 10

/-- The level of `<<`. -/
def shiftPrecedence : Nat :=
  5

def inParens (code : String) : String :=
  "(" ++ code ++ ")"

/-- Which operand of an operator an expression is. -/
inductive Side where
  | left
  | right
deriving DecidableEq, Repr

/-- Whether an operand on the given side of an operator needs parentheses to
stay one. Operators of one level group to the left. -/
def needsParens (operand : Expr) (level : Nat) (side : Side) : Bool :=
  match operand with
  | .binary _ operator _ _ =>
      let inner := precedence operator.kind
      inner < level || (side = .right && inner = level)
  | _ => false

/-- The text of an operand: `code`, in parentheses where it needs them. -/
def operand (operand : Expr) (level : Nat) (side : Side) (code : String) : String :=
  if needsParens operand level side then inParens code else code

/-- The text of a binary expression whose operands have the texts `left` and
`right`. -/
def binaryText (leftExpr : Expr) (operator : Token) (rightExpr : Expr)
    (left right : String) : String :=
  let level := precedence operator.kind
  match operator.kind with
  | .caret => "std::pow(" ++ left ++ ", " ++ right ++ ")"
  | .percent => operand leftExpr level .left left ++ " * (" ++ right ++ " * 0.01)"
  | _ =>
      operand leftExpr level .left left ++ " " ++ operator.value ++ " " ++
        operand rightExpr level .right right

/-- Parentheses keep two signs apart. -/
def unaryText (operator : Token) (operandExpr : Expr) (operand : String) : String :=
  match operandExpr with
  | .unary _ _ _ | .binary _ _ _ _ => operator.value ++ inParens operand
  | _ => operator.value ++ operand

def nextText (coroutineExpr : Expr) (coroutine : String) : String :=
  match coroutineExpr with
  | .unary _ _ _ | .percent _ _ | .binary _ _ _ _ => inParens coroutine ++ ".next()"
  | _ => coroutine ++ ".next()"

def typeText : NumericType → String
  | .int => "int"
  | .float => "double"

def callText (callee : String) (arguments : List String) : String :=
  callee ++ "(" ++ ", ".intercalate arguments ++ ")"

mutual

/-- The text of an expression, or the first reference in it that means nothing. -/
def expr (names : Names) : Expr → Except Error String
  | .number text _ => return text
  | .string bytes _ => return Cpp.stringLiteral bytes
  | .symbol name span =>
      if names.scopes.isDeclared name then return name
      else throw ⟨.undefinedVariable name, span.start⟩
  | .binary left operator right _ => do
      let leftText ← expr names left
      let rightText ← expr names right
      return binaryText left operator right leftText rightText
  | .unary operator operand _ => do
      let text ← expr names operand
      return unaryText operator operand text
  | .percent inner _ => do
      let text ← expr names inner
      return "(" ++ operand inner (precedence .star) .left text ++ " * 0.01)"
  | .grouping inner _ => do
      let text ← expr names inner
      return inParens text
  | .conversion target value _ => do
      let text ← expr names value
      return "static_cast<" ++ typeText target ++ ">" ++ inParens text
  | .call callee arguments span => do
      let _ ← names.resolve callee arguments.length span.start
      let texts ← exprs names arguments
      return callText callee texts
  | .next coroutine _ => do
      let text ← expr names coroutine
      return nextText coroutine text
  | .create callee arguments callSpan _ => do
      let _ ← names.resolve callee arguments.length callSpan.start
      let texts ← exprs names arguments
      return callText callee texts

def exprs (names : Names) : List Expr → Except Error (List String)
  | [] => return []
  | first :: others => do
      let text ← expr names first
      let texts ← exprs names others
      return text :: texts

end

/-- The text of an expression between two `<<`. -/
def streamOperand (names : Names) (argument : Expr) : Except Error String := do
  let text ← expr names argument
  return operand argument shiftPrecedence .left text

end Coroscript.Emit
