import Coroscript.Cpp.Layout
import Coroscript.Cpp.Template

namespace Coroscript.Cpp

/-! Classes whose method `next` goes on where it last stopped. A counter holds
the number of yields executed so far; each call jumps by it to the label behind
the last one. -/

/-- The member that counts executed yields. -/
def stateField : String :=
  "state"

def startLabel : String :=
  "start"

/-- The label behind the yield at `index`. -/
def resumeLabel (index : Nat) : String :=
  stateField ++ toString index

/-- The fault of a coroutine that is resumed after its end. -/
def exhausted : String :=
  "throw std::runtime_error(\"Coroutine is over\");"

/-- How far the body of a coroutine has been lowered: the number of its
parameters, and of the yields met so far. -/
structure Lowering where
  parameterCount : Nat
  yieldCount : Nat
deriving DecidableEq, Repr

namespace Lowering

def start (parameterCount : Nat) : Lowering :=
  ⟨parameterCount, 0⟩

/-- The text of the next yield: count it, hand out the value, and a label to
come back to. -/
def yieldText (lowering : Lowering) (value : String) : String :=
  stateField ++ "++;\nreturn " ++ value ++ ";\n" ++ resumeLabel lowering.yieldCount ++ ":;"

def afterYield (lowering : Lowering) : Lowering :=
  { lowering with yieldCount := lowering.yieldCount + 1 }

end Lowering

/-- The cases of the jump for `yieldCount` yields. Behind the last yield there
is nothing to go back to. -/
def dispatchCases (yieldCount : Nat) : List String :=
  ["case 0: goto " ++ startLabel ++ ";"] ++
    (List.range (yieldCount - 1)).map (fun index =>
      "case " ++ toString (index + 1) ++ ": goto " ++ resumeLabel index ++ ";") ++
    ["default: " ++ exhausted]

def dispatch (yieldCount : Nat) : String :=
  "switch (" ++ stateField ++ ") " ++ braced (dispatchCases yieldCount)

/-- A coroutine whose body has been lowered. -/
structure Resumable where
  name : String
  parameters : List String
  lowering : Lowering
  body : List String
deriving DecidableEq, Repr

namespace Resumable

def fields (coroutine : Resumable) : List String :=
  ("int " ++ stateField ++ " = 0;") ::
    (typedParameters coroutine.parameters).map fun parameter => parameter ++ ";"

def constructor (coroutine : Resumable) : String :=
  match coroutine.parameters with
  | [] => coroutine.name ++ "() \x7b\x7d"
  | parameters =>
      coroutine.name ++ "(" ++ ", ".intercalate (typedParameters parameters) ++ ") : " ++
        ", ".intercalate (parameters.map fun name => name ++ "(" ++ name ++ ")") ++ " \x7b\x7d"

def nextMethod (coroutine : Resumable) : String :=
  "auto next() " ++
    braced ([dispatch coroutine.lowering.yieldCount, startLabel ++ ":;"] ++ coroutine.body ++
      [exhausted])

def render (coroutine : Resumable) : String :=
  template coroutine.lowering.parameterCount <|
    "class " ++ coroutine.name ++ " \x7b\n" ++
      indent ("\n".intercalate coroutine.fields) ++ "\npublic:\n" ++
      indent (coroutine.constructor ++ "\n" ++ coroutine.nextMethod) ++ "\n\x7d;"

/-- The declaration of a class ahead of its definition. -/
def forward (name : String) (arity : Nat) : String :=
  template arity ("class " ++ name ++ ";")

end Resumable

end Coroscript.Cpp
