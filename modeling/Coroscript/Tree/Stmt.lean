import Coroscript.Tree.Expr

namespace Coroscript

/-! Statements and definitions. Only some trees are programs: a reader of
source text puts definitions at the top level and statements in their bodies. -/

structure Parameter where
  name : String
  span : Span
deriving DecidableEq, Repr

inductive Stmt where
  | block (body : List Stmt) (span : Span)
  | expression (value : Expr) (span : Span)
  /-- Declares a variable where it is new and assigns to it elsewhere. -/
  | define (name : String) (value : Expr) (span : Span)
  | ifThen (condition : Expr) (thenBody : Stmt) (span : Span)
  | ifElse (condition : Expr) (thenBody elseBody : Stmt) (span : Span)
  | returns (value? : Option Expr) (span : Span)
  /-- Suspends a coroutine. -/
  | yields (value : Expr) (span : Span)
  | print (arguments : List Expr) (span : Span)
  | forwardFunction (name : String) (parameters : List Parameter) (span : Span)
  | function (name : String) (parameters : List Parameter) (body : List Stmt)
      (bodySpan span : Span)
  | forwardCoroutine (name : String) (parameters : List Parameter) (span : Span)
  | coroutine (name : String) (parameters : List Parameter) (body : List Stmt)
      (bodySpan span : Span)
  | entryPoint (parameters : List Parameter) (body : List Stmt) (bodySpan span : Span)
deriving Repr

namespace Stmt

def span : Stmt → Span
  | block _ span | expression _ span | define _ _ span | ifThen _ _ span
  | ifElse _ _ _ span | returns _ span | yields _ span | print _ span
  | forwardFunction _ _ span | function _ _ _ _ span | forwardCoroutine _ _ span
  | coroutine _ _ _ _ span | entryPoint _ _ _ span => span

end Stmt

/-- The name of the function at which a program starts. -/
def entryName : String :=
  "main"

/-- The top-level definitions of a source, in order. -/
structure Program where
  items : List Stmt
  span : Span
deriving Repr

end Coroscript
