namespace Coroscript

/-! The functions and coroutines that a program has declared so far. -/

inductive CallableKind where
  | function
  | coroutine
  | entryPoint
deriving DecidableEq, Repr

/-- What a call has to know of its callee. `defined` tells a definition from a
forward declaration. -/
structure Signature where
  name : String
  arity : Nat
  kind : CallableKind
  defined : Bool
deriving DecidableEq, Repr

/-- The signatures by name, in the order of their first declaration. -/
structure Callables where
  signatures : List Signature
deriving DecidableEq, Repr

namespace Callables

def empty : Callables :=
  ⟨[]⟩

def get? (callables : Callables) (name : String) : Option Signature :=
  callables.signatures.find? fun signature => signature.name == name

def isRegistered (callables : Callables) (name : String) : Bool :=
  (callables.get? name).isSome

/-- Marks the signature of a name as defined. -/
def complete (callables : Callables) (name : String) : Callables :=
  ⟨callables.signatures.map fun signature =>
    if signature.name == name then { signature with defined := true } else signature⟩

/-- Takes a declaration in. A name can be declared once, or once ahead of a
definition of the same kind and arity. -/
def register? (callables : Callables) (declaration : Signature) : Option Callables :=
  match callables.get? declaration.name with
  | none => some ⟨callables.signatures ++ [declaration]⟩
  | some signature =>
      if declaration.defined ∧ ¬ signature.defined ∧ signature.kind = declaration.kind ∧
          signature.arity = declaration.arity then
        some (callables.complete declaration.name)
      else none

theorem get?_name {callables : Callables} {name : String} {signature : Signature}
    (hget : callables.get? name = some signature) : signature.name = name := by
  simpa using List.find?_some hget

end Callables

end Coroscript
