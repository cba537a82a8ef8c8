import Coroscript.Grammar.Expr
import Coroscript.Tree.Stmt

namespace Coroscript.Grammar

/-! Reading statements, definitions and whole programs. -/

open Coroscript.Parser

variable (grammar : Grammar)

/-- `x = value;`, or the same after `def`. -/
def define : Parser Stmt := do
  let start ← position
  if (← kind) = .keyDef then
    let _ ← advance
  let name ← expectBecause .identifier "expected identifier in variable definition"
  let _ ← expect .assignment
  let value ← grammar.expr .lowest
  let _ ← expect .semicolon
  return .define name.value value ⟨start, ← previousEnd⟩

/-- A definition inside a body. -/
def localDefine : Parser Stmt := do
  if (← peekKind 1) = .identifier ∧ (← peekKind 2) = .assignment then define grammar
  else unexpectedBecause "functions and coroutines can only be defined at the top level"

def returns : Parser Stmt := do
  let keyword ← advance
  if (← kind) = .semicolon then
    let _ ← advance
    return .returns none ⟨keyword.span.start, ← previousEnd⟩
  else
    let value ← grammar.expr .lowest
    let _ ← expect .semicolon
    return .returns (some value) ⟨keyword.span.start, ← previousEnd⟩

def yields : Parser Stmt := do
  let keyword ← advance
  let value ← grammar.expr .lowest
  let _ ← expect .semicolon
  return .yields value ⟨keyword.span.start, ← previousEnd⟩

def print : Parser Stmt := do
  let keyword ← advance
  let arguments ← parenthesised (grammar.expr .lowest)
  let _ ← expect .semicolon
  return .print arguments ⟨keyword.span.start, ← previousEnd⟩

/-- An expression that stands as a statement has the span of the expression. -/
def expression : Parser Stmt := do
  let value ← grammar.expr .lowest
  let _ ← expect .semicolon
  return .expression value value.span

def parameters : Parser (List Parameter) :=
  parenthesised do
    let name ← expectBecause .identifier "expected parameter name"
    return ⟨name.value, name.span⟩

/-! The rules that hold statements, over the reader `recurse` of those. -/

section Rules

variable (recurse : Parser Stmt)

def branch : Parser Stmt := do
  let keyword ← advance
  let _ ← expect .openParen
  let condition ← grammar.expr .lowest
  let _ ← expect .closeParen
  let thenBody ← recurse
  if (← kind) = .keyElse then
    let _ ← advance
    let elseBody ← recurse
    return .ifElse condition thenBody elseBody ⟨keyword.span.start, ← previousEnd⟩
  else return .ifThen condition thenBody ⟨keyword.span.start, ← previousEnd⟩

/-- The statements up to a closing brace, at most `bound` of them. -/
def statements : (bound : Nat) → Parser (List Stmt)
  | 0 => unexpected
  | bound + 1 => do
      match ← kind with
      | .closeCurly => return []
      | .eof => unexpectedBecause "expected '\x7d'"
      | _ =>
          let first ← recurse
          let others ← statements bound
          return first :: others

/-- Statements in braces, and the span of the braces. -/
def block : Parser (List Stmt × Span) := do
  let opening ← expect .openCurly
  let body ← fun cursor => statements recurse cursor.remaining cursor
  let closing ← expect .closeCurly
  return (body, ⟨opening.span.start, closing.span.stop⟩)

/-- A body, or the semicolon of a forward declaration. -/
def body? : Parser (Option (List Stmt × Span)) := do
  if (← kind) = .semicolon then
    let _ ← advance
    return none
  else return some (← block recurse)

/-- A function with the name of the entry point must have a body. -/
def function : Parser Stmt := do
  let keyword ← advance
  let name ← expect .identifier
  let parameters ← parameters
  if name.value = entryName then
    let (body, bodySpan) ← block recurse
    return .entryPoint parameters body bodySpan ⟨keyword.span.start, ← previousEnd⟩
  else
    match ← body? recurse with
    | none => return .forwardFunction name.value parameters ⟨keyword.span.start, ← previousEnd⟩
    | some (body, bodySpan) =>
        return .function name.value parameters body bodySpan
          ⟨keyword.span.start, ← previousEnd⟩

def coroutine : Parser Stmt := do
  let keyword ← advance
  let _ ← expect .keyCoroutine
  let name ← expectBecause .identifier "expected coroutine name"
  let parameters ← parameters
  match ← body? recurse with
  | none => return .forwardCoroutine name.value parameters ⟨keyword.span.start, ← previousEnd⟩
  | some (body, bodySpan) =>
      return .coroutine name.value parameters body bodySpan
        ⟨keyword.span.start, ← previousEnd⟩

/-- A definition at the top level, told by its first three tokens. -/
def itemWith : Parser Stmt := do
  match ← kind, ← peekKind 1, ← peekKind 2 with
  | .keyDef, .keyCoroutine, _ => coroutine recurse
  | .keyDef, .identifier, .openParen => function recurse
  | .keyDef, .identifier, .assignment => define grammar
  | .identifier, .assignment, _ => define grammar
  | _, _, _ => unexpectedBecause "expected a definition at the top level"

def stmtBy : StmtRule → Parser Stmt
  | .item => itemWith grammar recurse
  | .stmt => recurse
  | .localDefine => localDefine grammar
  | .define => define grammar
  | .branch => branch grammar recurse
  | .block => do
      let (body, span) ← block recurse
      return .block body span
  | .returns => returns grammar
  | .yields => yields grammar
  | .print => print grammar
  | .function => function recurse
  | .coroutine => coroutine recurse

end Rules

/-- Reads a statement whose parts nest at most `depth` deep. -/
def stmtWithin : (depth : Nat) → Parser Stmt
  | 0 => unexpected
  | depth + 1 => do
      match grammar.stmt? (← kind) with
      | some rule => stmtBy grammar (stmtWithin depth) rule
      | none =>
          if (← kind) = .identifier ∧ (← peekKind 1) = .assignment then define grammar
          else expression grammar

/-- Reads a statement. A statement takes a token before it reads a part, so the
tokens that are left bound how deep it nests. -/
def stmt : Parser Stmt :=
  fun cursor => stmtWithin grammar cursor.remaining cursor

def item : Parser Stmt :=
  itemWith grammar grammar.stmt

/-- The definitions up to the end mark, at most `bound` of them. -/
def items : (bound : Nat) → Parser (List Stmt)
  | 0 => unexpected
  | bound + 1 => do
      if (← kind) = .eof then return []
      else
        let first ← grammar.item
        let others ← items bound
        return first :: others

def program (file : String) : Parser Program := do
  let items ← fun cursor => items grammar cursor.remaining cursor
  return ⟨items, ⟨.start file, ← position⟩⟩

end Coroscript.Grammar

namespace Coroscript

/-- The program that `tokens` spell. -/
def Program.ofTokens (tokens : List Token) (file : String) : Except Error Program :=
  (Grammar.standard.program file (.ofTokens tokens file)).1

end Coroscript
