import Coroscript.Cpp.Function
import Coroscript.Emit.Stmt

namespace Coroscript.Emit

/-! The text of top-level definitions, and of a whole program. -/

open Emitter

def parameterNames (parameters : List Parameter) : List String :=
  parameters.map Parameter.name

def forwardFunction (name : String) (parameters : List Parameter) (span : Span) :
    Emitter String := do
  register ⟨name, parameters.length, .function, false⟩ span.start
  return (Cpp.FunctionHead.generic name (parameterNames parameters)).forward

def function (name : String) (parameters : List Parameter) (body : List Stmt)
    (bodySpan span : Span) : Emitter String := do
  register ⟨name, parameters.length, .function, true⟩ span.start
  declareParameters parameters
  let (text, _) ← withBody .function (block body bodySpan)
  exit span.stop
  return (Cpp.FunctionHead.generic name (parameterNames parameters)).definition text

/-- The entry point is emitted without its parameters, and its body does not
see them. -/
def entryPoint (body : List Stmt) (bodySpan span : Span) : Emitter String := do
  register ⟨entryName, 0, .entryPoint, true⟩ span.start
  let (text, _) ← withBody .function (block body bodySpan)
  return Cpp.FunctionHead.entryPoint.definition text

def forwardCoroutine (name : String) (parameters : List Parameter) (span : Span) :
    Emitter String := do
  register ⟨name, parameters.length, .coroutine, false⟩ span.start
  return Cpp.Resumable.forward name parameters.length

/-- Where a name is that the counter of the emitted class would hide, if there
is one: a parameter, or anything visible at the definition. -/
def hiddenByState? (names : Names) (parameters : List Parameter) (span : Span) :
    Option Position :=
  match parameters.find? fun parameter => parameter.name == Cpp.stateField with
  | some parameter => some parameter.span.start
  | none => if names.isTaken Cpp.stateField then some span.start else none

def coroutine (name : String) (parameters : List Parameter) (body : List Stmt)
    (bodySpan span : Span) : Emitter String := do
  let arity := parameters.length
  register ⟨name, arity, .coroutine, true⟩ span.start
  match hiddenByState? (← Action.get).names parameters span with
  | some position => Action.fail ⟨.redefinition Cpp.stateField, position⟩
  | none =>
      declareParameters parameters
      let (texts, finished) ←
        withBody (.coroutine (.start arity)) (blockContents body bodySpan)
      exit span.stop
      let lowering := match finished with
        | .coroutine lowering => lowering
        | _ => .start arity
      return (Cpp.Resumable.mk name (parameterNames parameters) lowering texts).render

/-- A variable at the top level is always new. -/
def global (name : String) (value : Expr) (span : Span) : Emitter String := do
  let text ← read fun names => expr names value
  declare name span.start
  return "auto " ++ name ++ " = " ++ text ++ ";"

def item : Stmt → Emitter String
  | .forwardFunction name parameters span => forwardFunction name parameters span
  | .function name parameters body bodySpan span => function name parameters body bodySpan span
  | .forwardCoroutine name parameters span => forwardCoroutine name parameters span
  | .coroutine name parameters body bodySpan span =>
      coroutine name parameters body bodySpan span
  | .entryPoint _ body bodySpan span => entryPoint body bodySpan span
  | .define name value span => global name value span
  | other => Action.fail ⟨.malformedTree "top-level definition", other.span.start⟩

def items : List Stmt → Emitter (List String)
  | [] => return []
  | first :: others => do
      let text ← item first
      let texts ← items others
      return text :: texts

/-- The headers that emitted programs rely on. -/
def headers : String :=
  "#include <cmath>\n#include <iostream>\n#include <stdexcept>"

def hasEntryPoint (names : Names) : Bool :=
  match names.callables.get? entryName with
  | some signature => signature.kind = .entryPoint
  | none => false

def unit (program : Program) : Emitter String := do
  let texts ← items program.items
  if hasEntryPoint (← Action.get).names then
    return "\n\n".intercalate (headers :: texts) ++ "\n"
  else Action.fail ⟨.undefinedFunction entryName, program.span.stop⟩

end Coroscript.Emit
