import Coroscript.Token.Basic

namespace Coroscript

/-! Expressions. Operators keep the token they were written with. -/

/-- The numeric types a value can be converted to. -/
inductive NumericType where
  | int
  | float
deriving DecidableEq, Repr

inductive Expr where
  | number (text : String) (span : Span)
  | symbol (name : String) (span : Span)
  /-- A string literal, as the bytes it denotes. -/
  | string (bytes : List UInt8) (span : Span)
  | binary (left : Expr) (operator : Token) (right : Expr) (span : Span)
  | unary (operator : Token) (operand : Expr) (span : Span)
  /-- `x%`, a hundredth of `x`. -/
  | percent (operand : Expr) (span : Span)
  /-- An expression in parentheses. -/
  | grouping (inner : Expr) (span : Span)
  | conversion (target : NumericType) (value : Expr) (span : Span)
  | call (callee : String) (arguments : List Expr) (span : Span)
  /-- Resumes a coroutine. -/
  | next (coroutine : Expr) (span : Span)
  /-- Makes a coroutine from a call of its definition, which stands at `callSpan`. -/
  | create (callee : String) (arguments : List Expr) (callSpan span : Span)
deriving Repr, Inhabited

namespace Expr

def span : Expr → Span
  | number _ span | symbol _ span | string _ span | binary _ _ _ span
  | unary _ _ span | percent _ span | grouping _ span | conversion _ _ span
  | call _ _ span | next _ span | create _ _ _ span => span

end Expr

end Coroscript
