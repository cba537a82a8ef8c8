import Coroscript.Action
import Coroscript.Cpp.Resumable
import Coroscript.Name.Table
import Coroscript.Tree.Stmt

namespace Coroscript.Emit

/-! What is known while a program is emitted: the names in use, and the kind of
body that the current statement is in. -/

/-- The kind of body decides whether statements may return, yield or declare. -/
inductive Body where
  | topLevel
  | function
  | coroutine (lowering : Cpp.Lowering)
deriving DecidableEq, Repr

structure State where
  names : Names
  body : Body
deriving DecidableEq, Repr

def State.initial : State :=
  ⟨.empty, .topLevel⟩

def State.inCoroutine (state : State) : Bool :=
  match state.body with
  | .coroutine _ => true
  | _ => false

/-- A step of the emission. -/
abbrev Emitter := Action Error State

namespace Emitter

variable {α : Type}

/-- Changes the names, or fails and leaves them as they were. -/
def update (change : Names → Except Error Names) : Emitter Unit :=
  fun state =>
    match change state.names with
    | .ok names => (.ok (), { state with names })
    | .error error => (.error error, state)

/-- A result that depends on the names alone. -/
def read (view : Names → Except Error α) : Emitter α :=
  fun state => (view state.names, state)

def enter : Emitter Unit :=
  update fun names => .ok names.enter

def exit (position : Position) : Emitter Unit :=
  update fun names => names.exit position

def declare (name : String) (position : Position) : Emitter Unit :=
  update fun names => names.declare name position

def register (declaration : Signature) (position : Position) : Emitter Unit :=
  update fun names => names.register declaration position

def setBody (body : Body) : Emitter Unit :=
  Action.modify fun state => { state with body }

/-- Runs a step in a frame of its own. If the step fails the frame stays open. -/
def inFrame (stop : Position) (run : Emitter α) : Emitter α := do
  enter
  let result ← run
  exit stop
  return result

/-- Runs a step in a body of another kind, and tells what the step made of that
body. The kind of the outer body is restored also if the step fails. -/
def withBody (body : Body) (run : Emitter α) : Emitter (α × Body) :=
  fun state =>
    match run { state with body } with
    | (.ok result, after) => (.ok (result, after.body), { after with body := state.body })
    | (.error error, after) => (.error error, { after with body := state.body })

/-- Opens a frame that holds `parameters`, and leaves it open. -/
def declareParameters (parameters : List Parameter) : Emitter Unit := do
  enter
  parameters.forM fun parameter => declare parameter.name parameter.span.start

end Emitter

end Coroscript.Emit
