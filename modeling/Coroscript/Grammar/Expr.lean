import Coroscript.Grammar.Table
import Coroscript.Literal.Escape
import Coroscript.Token.Cursor
import Coroscript.Tree.Expr

namespace Coroscript.Grammar

/-! Reading expressions. An expression starts by the rule of its first token;
then, as long as the next token holds tighter than the context asks, it goes on
by the rule of that token. -/

open Coroscript.Parser

/-- The kinds that can start the right operand of a percent sign. A percent sign
before any other kind stands behind its only operand. -/
def startsOperand : TokenKind → Bool
  | .number | .string | .identifier | .openParen | .not | .keyInt | .keyFloat
  | .keyNext | .keyCreateCoroutine => true
  | _ => false

/-- The power of the current token after an operand. -/
def powerAt (grammar : Grammar) (cursor : Cursor) : Power :=
  if cursor.current.kind = .percent then
    if startsOperand (cursor.peek 1).kind then .multiplicative else .trailing
  else (grammar.power? cursor.current.kind).getD .lowest

/-! The rules, over the reader `recurse` of their operands. -/

section Rules

variable (recurse : Power → Parser Expr)

def primary : Parser Expr := do
  let token ← Action.gets Cursor.current
  match token.kind with
  | .number =>
      let _ ← advance
      return .number token.value token.span
  | .identifier =>
      let _ ← advance
      return .symbol token.value token.span
  | .string =>
      let _ ← advance
      return .string (Literal.bytes token.value) token.span
  | _ => unexpected

def unary : Parser Expr := do
  let operator ← advance
  let operand ← recurse .unary
  return .unary operator operand ⟨operator.span.start, operand.span.stop⟩

def grouping : Parser Expr := do
  let opening ← advance
  let inner ← recurse .lowest
  let closing ← expect .closeParen
  return .grouping inner ⟨opening.span.start, closing.span.stop⟩

def conversion : Parser Expr := do
  let keyword ← advance
  let target := if keyword.kind = .keyInt then NumericType.int else .float
  let _ ← expect .openParen
  let value ← recurse .lowest
  let closing ← expect .closeParen
  return .conversion target value ⟨keyword.span.start, closing.span.stop⟩

def next : Parser Expr := do
  let keyword ← advance
  let coroutine ← recurse .unary
  return .next coroutine ⟨keyword.span.start, coroutine.span.stop⟩

def create : Parser Expr := do
  let keyword ← advance
  let target ← recurse .unary
  match target with
  | .call callee arguments span =>
      return .create callee arguments span ⟨keyword.span.start, span.stop⟩
  | _ =>
      Action.fail
        ⟨.unexpectedTokenDetailed "create_coroutine" "expected a coroutine call",
          target.span.start⟩

/-- An operator between two operands; the right one holds at least as tightly as
`power` asks. -/
def binary (left : Expr) (power : Power) : Parser Expr := do
  let operator ← advance
  let right ← recurse power
  return .binary left operator right ⟨left.span.start, right.span.stop⟩

def percent (left : Expr) : Parser Expr := do
  let operator ← advance
  if startsOperand (← kind) then
    let right ← recurse .multiplicative
    return .binary left operator right ⟨left.span.start, right.span.stop⟩
  else return .percent left ⟨left.span.start, operator.span.stop⟩

def call (left : Expr) : Parser Expr := do
  match left with
  | .symbol callee span =>
      let arguments ← parenthesised (recurse .lowest)
      return .call callee arguments ⟨span.start, ← previousEnd⟩
  | _ =>
      let token ← Action.gets Cursor.current
      Action.fail
        ⟨.unexpectedTokenDetailed token.value "only named functions can be called",
          left.span.start⟩

def lead : LeadRule → Parser Expr
  | .primary => primary
  | .unary => unary recurse
  | .grouping => grouping recurse
  | .conversion => conversion recurse
  | .next => next recurse
  | .create => create recurse

/-- An exponent is read as loosely as a factor, so that powers group to the right. -/
def follow (rule : FollowRule) (left : Expr) (power : Power) : Parser Expr :=
  match rule with
  | .binary => binary recurse left power
  | .exponent => binary recurse left .multiplicative
  | .percent => percent recurse left
  | .call => call recurse left

end Rules

/-- Goes on with the operand `left` while the next token holds tighter than
`power`, at most `bound` times. -/
def operators (grammar : Grammar) (recurse : Power → Parser Expr) (power : Power) :
    (bound : Nat) → (left : Expr) → Parser Expr
  | 0, _ => unexpected
  | bound + 1, left => do
      let operatorPower ← Action.gets grammar.powerAt
      if power.rank < operatorPower.rank then
        match grammar.follow? (← kind) with
        | none => unexpected
        | some rule =>
            let extended ← follow recurse rule left operatorPower
            operators grammar recurse power bound extended
      else return left

/-- Reads an expression whose operands nest at most `depth` deep. -/
def exprWithin (grammar : Grammar) : (depth : Nat) → Power → Parser Expr
  | 0, _ => unexpected
  | depth + 1, power => do
      match grammar.lead? (← kind) with
      | none => unexpected
      | some rule =>
          let left ← lead (exprWithin grammar depth) rule
          operators grammar (exprWithin grammar depth) power depth left

/-- Reads an expression whose operators all hold tighter than `power`. Every
operand takes a token, so the tokens that are left bound how deep it nests. -/
def expr (grammar : Grammar) (power : Power) : Parser Expr :=
  fun cursor => exprWithin grammar cursor.remaining power cursor

end Coroscript.Grammar
