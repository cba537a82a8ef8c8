import Coroscript.Emit.Expr
import Coroscript.Emit.State

namespace Coroscript.Emit

/-! The text of statements. -/

open Emitter

/-- The first definition of a name declares it, later ones assign to it. -/
def define (name : String) (value : Expr) (span : Span) : Emitter String := do
  let text ← read fun names => expr names value
  let state ← Action.get
  if state.names.scopes.isDeclared name then return name ++ " = " ++ text ++ ";"
  else if state.inCoroutine then Action.fail ⟨.definitionInCoroutine, span.start⟩
  else
    declare name span.start
    return "auto " ++ name ++ " = " ++ text ++ ";"

def returns (value? : Option Expr) (span : Span) : Emitter String := do
  if (← Action.get).inCoroutine then Action.fail ⟨.returnInCoroutine, span.start⟩
  else
    match value? with
    | some value =>
        let text ← read fun names => expr names value
        return "return " ++ text ++ ";"
    | none => return "return;"

def yields (value : Expr) (span : Span) : Emitter String := do
  match (← Action.get).body with
  | .coroutine lowering =>
      let text ← read fun names => expr names value
      setBody (.coroutine lowering.afterYield)
      return lowering.yieldText text
  | _ => Action.fail ⟨.yieldOutsideCoroutine, span.start⟩

def print (arguments : List Expr) : Emitter String := do
  let texts ← read fun names => arguments.mapM (streamOperand names)
  return "std::cout" ++ String.join (texts.map (" << " ++ ·)) ++ " << \"\\n\";"

/-- The body of an `if` or `else`, where `run` emits `body`. A single statement
gets braces and a frame of its own. -/
def branch (body : Stmt) (run : Emitter String) : Emitter String :=
  match body with
  | .block _ _ => run
  | _ => do
      let text ← inFrame body.span.stop run
      return Cpp.braced [text]

mutual

def stmt : Stmt → Emitter String
  | .expression value _ => do
      let text ← read fun names => expr names value
      return Cpp.terminate text
  | .block body span => do
      let texts ← inFrame span.stop (stmts body)
      return Cpp.braced texts
  | .define name value span => define name value span
  | .ifThen condition thenBody _ => do
      let test ← read fun names => expr names condition
      let thenText ← branch thenBody (stmt thenBody)
      return "if " ++ inParens test ++ " " ++ thenText
  | .ifElse condition thenBody elseBody _ => do
      let test ← read fun names => expr names condition
      let thenText ← branch thenBody (stmt thenBody)
      let elseText ← branch elseBody (stmt elseBody)
      return "if " ++ inParens test ++ " " ++ thenText ++ " else " ++ elseText
  | .returns value? span => returns value? span
  | .yields value span => yields value span
  | .print arguments _ => print arguments
  | .forwardFunction _ _ span | .function _ _ _ _ span | .forwardCoroutine _ _ span
  | .coroutine _ _ _ _ span | .entryPoint _ _ _ span =>
      Action.fail ⟨.malformedTree "statement", span.start⟩

def stmts : List Stmt → Emitter (List String)
  | [] => return []
  | first :: others => do
      let text ← stmt first
      let texts ← stmts others
      return text :: texts

end

/-- The statements of a block, in a frame of their own and without braces. -/
def blockContents (body : List Stmt) (span : Span) : Emitter (List String) :=
  inFrame span.stop (stmts body)

def block (body : List Stmt) (span : Span) : Emitter String := do
  let texts ← blockContents body span
  return Cpp.braced texts

end Coroscript.Emit
