import Coroscript.Cpp.Template

namespace Coroscript.Cpp

/-! Function declarations. -/

/-- What stands before the body of a function. -/
structure FunctionHead where
  arity : Nat
  returnType : String
  name : String
  parameters : String
deriving DecidableEq, Repr

namespace FunctionHead

/-- A function that is generic in each of its parameters. -/
def generic (name : String) (parameters : List String) : FunctionHead :=
  ⟨parameters.length, "auto", name, ", ".intercalate (typedParameters parameters)⟩

/-- The function at which a program starts. It has no parameters. -/
def entryPoint : FunctionHead :=
  ⟨0, "int", "main", ""⟩

def signature (head : FunctionHead) : String :=
  head.returnType ++ " " ++ head.name ++ "(" ++ head.parameters ++ ")"

def forward (head : FunctionHead) : String :=
  template head.arity (head.signature ++ ";")

def definition (head : FunctionHead) (body : String) : String :=
  template head.arity (head.signature ++ " " ++ body)

end FunctionHead

end Coroscript.Cpp
