import Coroscript.Emit.Item
import Coroscript.Proofs.Cpp.Margins

namespace Coroscript

/-! Programs whose lines are moved to the right by any text, one time for each level. -/

namespace Cpp

def bracedBy (margin : List Char) : List String → String
  | [] => "\x7b\x7d"
  | statements => "\x7b\n" ++ indentBy margin ("\n".intercalate statements) ++ "\n\x7d"

def dispatchBy (margin : List Char) (yieldCount : Nat) : String :=
  "switch (" ++ stateField ++ ") " ++ bracedBy margin (dispatchCases yieldCount)

namespace Resumable

def nextMethodBy (margin : List Char) (coroutine : Resumable) : String :=
  "auto next() " ++
    bracedBy margin ([dispatchBy margin coroutine.lowering.yieldCount, startLabel ++ ":;"] ++
      coroutine.body ++ [exhausted])

def renderBy (margin : List Char) (coroutine : Resumable) : String :=
  template coroutine.lowering.parameterCount <|
    "class " ++ coroutine.name ++ " \x7b\n" ++
      indentBy margin ("\n".intercalate coroutine.fields) ++ "\npublic:\n" ++
      indentBy margin (coroutine.constructor ++ "\n" ++ coroutine.nextMethodBy margin) ++ "\n\x7d;"

end Resumable

@[simp] theorem bracedBy_indentation : bracedBy indentation = braced := by
  funext statements
  cases statements with
  | nil => rfl
  | cons first others => simp only [bracedBy, indentBy_indentation, braced]

@[simp] theorem Resumable.renderBy_indentation (coroutine : Resumable) :
    coroutine.renderBy indentation = coroutine.render := by
  have hdispatch : dispatchBy indentation coroutine.lowering.yieldCount =
      dispatch coroutine.lowering.yieldCount := by
    rw [dispatchBy, bracedBy_indentation, dispatch]
  have hnext : coroutine.nextMethodBy indentation = coroutine.nextMethod := by
    rw [nextMethodBy, bracedBy_indentation, hdispatch, nextMethod]
  rw [renderBy, indentBy_indentation, hnext, render]

end Cpp

namespace Emit

open Emitter

def branchBy (margin : List Char) (body : Stmt) (run : Emitter String) : Emitter String :=
  match body with
  | .block _ _ => run
  | _ => do
      let text ← inFrame body.span.stop run
      return Cpp.bracedBy margin [text]

mutual

def stmtBy (margin : List Char) : Stmt → Emitter String
  | .block body span => do
      let texts ← inFrame span.stop (stmtsBy margin body)
      return Cpp.bracedBy margin texts
  | .ifThen condition thenBody _ => do
      let test ← read fun names => expr names condition
      let thenText ← branchBy margin thenBody (stmtBy margin thenBody)
      return "if " ++ inParens test ++ " " ++ thenText
  | .ifElse condition thenBody elseBody _ => do
      let test ← read fun names => expr names condition
      let thenText ← branchBy margin thenBody (stmtBy margin thenBody)
      let elseText ← branchBy margin elseBody (stmtBy margin elseBody)
      return "if " ++ inParens test ++ " " ++ thenText ++ " else " ++ elseText
  -- The other statements are on lines of one level.
  | other => stmt other

def stmtsBy (margin : List Char) : List Stmt → Emitter (List String)
  | [] => return []
  | first :: others => do
      let text ← stmtBy margin first
      let texts ← stmtsBy margin others
      return text :: texts

end

def blockContentsBy (margin : List Char) (body : List Stmt) (span : Span) :
    Emitter (List String) :=
  inFrame span.stop (stmtsBy margin body)

def blockBy (margin : List Char) (body : List Stmt) (span : Span) : Emitter String := do
  let texts ← blockContentsBy margin body span
  return Cpp.bracedBy margin texts

def functionBy (margin : List Char) (name : String) (parameters : List Parameter)
    (body : List Stmt) (bodySpan span : Span) : Emitter String := do
  register ⟨name, parameters.length, .function, true⟩ span.start
  declareParameters parameters
  let (text, _) ← withBody .function (blockBy margin body bodySpan)
  exit span.stop
  return (Cpp.FunctionHead.generic name (parameterNames parameters)).definition text

def entryPointBy (margin : List Char) (body : List Stmt) (bodySpan span : Span) :
    Emitter String := do
  register ⟨entryName, 0, .entryPoint, true⟩ span.start
  let (text, _) ← withBody .function (blockBy margin body bodySpan)
  return Cpp.FunctionHead.entryPoint.definition text

def coroutineBy (margin : List Char) (name : String) (parameters : List Parameter)
    (body : List Stmt) (bodySpan span : Span) : Emitter String := do
  let arity := parameters.length
  register ⟨name, arity, .coroutine, true⟩ span.start
  match hiddenByState? (← Action.get).names parameters span with
  | some position => Action.fail ⟨.redefinition Cpp.stateField, position⟩
  | none =>
      declareParameters parameters
      let (texts, finished) ←
        withBody (.coroutine (.start arity)) (blockContentsBy margin body bodySpan)
      exit span.stop
      let lowering := match finished with
        | .coroutine lowering => lowering
        | _ => .start arity
      return (Cpp.Resumable.mk name (parameterNames parameters) lowering texts).renderBy margin

def itemBy (margin : List Char) : Stmt → Emitter String
  | .function name parameters body bodySpan span =>
      functionBy margin name parameters body bodySpan span
  | .coroutine name parameters body bodySpan span =>
      coroutineBy margin name parameters body bodySpan span
  | .entryPoint _ body bodySpan span => entryPointBy margin body bodySpan span
  | other => item other

def itemsBy (margin : List Char) : List Stmt → Emitter (List String)
  | [] => return []
  | first :: others => do
      let text ← itemBy margin first
      let texts ← itemsBy margin others
      return text :: texts

/-- The text of a program with `margin` in the place of an indentation. -/
def unitBy (margin : List Char) (program : Program) : Emitter String := do
  let texts ← itemsBy margin program.items
  if hasEntryPoint (← Action.get).names then
    return "\n\n".intercalate (headers :: texts) ++ "\n"
  else Action.fail ⟨.undefinedFunction entryName, program.span.stop⟩

/-! With the indentation itself this is how programs are emitted. -/

theorem branchBy_indentation (body : Stmt) (run : Emitter String) :
    branchBy Cpp.indentation body run = branch body run := by
  cases body <;> simp only [branchBy, branch, Cpp.bracedBy_indentation]

mutual

theorem stmtBy_indentation : ∀ tree : Stmt, stmtBy Cpp.indentation tree = stmt tree
  | .block body span => by
      rw [stmtBy, stmt, stmtsBy_indentation body, Cpp.bracedBy_indentation]
  | .ifThen condition thenBody span => by
      rw [stmtBy, stmt, stmtBy_indentation thenBody, branchBy_indentation]
  | .ifElse condition thenBody elseBody span => by
      rw [stmtBy, stmt, stmtBy_indentation thenBody, stmtBy_indentation elseBody,
        branchBy_indentation, branchBy_indentation]
  | .expression _ _ | .define _ _ _ | .returns _ _ | .yields _ _ | .print _ _
  | .forwardFunction _ _ _ | .function _ _ _ _ _ | .forwardCoroutine _ _ _
  | .coroutine _ _ _ _ _ | .entryPoint _ _ _ _ => by rw [stmtBy] <;> simp

theorem stmtsBy_indentation : ∀ trees : List Stmt, stmtsBy Cpp.indentation trees = stmts trees
  | [] => by rw [stmtsBy, stmts]
  | first :: others => by
      rw [stmtsBy, stmts, stmtBy_indentation first, stmtsBy_indentation others]

end

theorem itemBy_indentation (tree : Stmt) : itemBy Cpp.indentation tree = item tree := by
  have hcontents (body : List Stmt) (span : Span) :
      blockContentsBy Cpp.indentation body span = blockContents body span := by
    rw [blockContentsBy, stmtsBy_indentation, blockContents]
  have hblock (body : List Stmt) (span : Span) :
      blockBy Cpp.indentation body span = block body span := by
    rw [blockBy, hcontents, Cpp.bracedBy_indentation, block]
  cases tree with
  | function name parameters body bodySpan span =>
      rw [itemBy, functionBy, hblock, item, function]
  | entryPoint parameters body bodySpan span => rw [itemBy, entryPointBy, hblock, item, entryPoint]
  | coroutine name parameters body bodySpan span =>
      simp only [itemBy, coroutineBy, hcontents, Cpp.Resumable.renderBy_indentation]
      rfl
  | block | expression | define | ifThen | ifElse | returns | yields | print | forwardFunction
  | forwardCoroutine => rfl

theorem itemsBy_indentation (trees : List Stmt) :
    itemsBy Cpp.indentation trees = items trees := by
  induction trees with
  | nil => rfl
  | cons first others ih => rw [itemsBy, items, itemBy_indentation, ih]

theorem unitBy_indentation (program : Program) : unitBy Cpp.indentation program = unit program := by
  rw [unitBy, itemsBy_indentation, unit]

end Emit

end Coroscript
