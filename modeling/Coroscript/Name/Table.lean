import Coroscript.Error
import Coroscript.Name.Callable
import Coroscript.Name.Scope

namespace Coroscript

/-! Variables and callables share one name space. -/

structure Names where
  scopes : Scopes
  callables : Callables
deriving DecidableEq, Repr

namespace Names

def empty : Names :=
  ⟨.empty, .empty⟩

/-- Whether a variable or a callable has the name. -/
def isTaken (names : Names) (name : String) : Bool :=
  names.scopes.isDeclared name || names.callables.isRegistered name

/-- Declares a variable in the innermost frame. -/
def declare (names : Names) (name : String) (position : Position) : Except Error Names :=
  if names.isTaken name then .error ⟨.redefinition name, position⟩
  else .ok { names with scopes := names.scopes.insert name }

/-- Declares a function or a coroutine. -/
def register (names : Names) (declaration : Signature) (position : Position) :
    Except Error Names :=
  if names.scopes.isDeclared declaration.name then
    .error ⟨.redefinition declaration.name, position⟩
  else
    match names.callables.register? declaration with
    | some callables => .ok { names with callables }
    | none => .error ⟨.redefinition declaration.name, position⟩

/-- The signature that a call of `name` with `count` arguments means. -/
def resolve (names : Names) (name : String) (count : Nat) (position : Position) :
    Except Error Signature :=
  match names.callables.get? name with
  | none => .error ⟨.undefinedFunction name, position⟩
  | some signature =>
      if signature.arity = count then .ok signature
      else .error ⟨.arityMismatch name signature.arity count, position⟩

def enter (names : Names) : Names :=
  { names with scopes := names.scopes.enter }

def exit (names : Names) (position : Position) : Except Error Names :=
  match names.scopes.exit? with
  | some scopes => .ok { names with scopes }
  | none => .error ⟨.scopeUnderflow, position⟩

end Names

end Coroscript
