import Coroscript.Source.Position

namespace Coroscript

/-! What can be wrong with a program, and how it is said. -/

/-- The causes for which a program is refused. -/
inductive Cause where
  | unrecognisedToken (token : String)
  | unexpectedToken (token : String)
  | unexpectedTokenDetailed (token message : String)
  | redefinition (name : String)
  | undefinedVariable (name : String)
  | undefinedFunction (name : String)
  | arityMismatch (name : String) (expected provided : Nat)
  | returnInCoroutine
  | yieldOutsideCoroutine
  | definitionInCoroutine
  | scopeUnderflow
  | malformedTree (expected : String)
deriving DecidableEq, Repr

/-- The categories into which causes fall. The last one is for faults of the
program that reads a source, not of the source. -/
inductive Category where
  | malformedText
  | redefinition
  | undefinedReference
  | arityMismatch
  | illegalControlFlow
  | internal
deriving DecidableEq, Repr

namespace Cause

def category : Cause → Category
  | unrecognisedToken _ | unexpectedToken _ | unexpectedTokenDetailed _ _ => .malformedText
  | redefinition _ => .redefinition
  | undefinedVariable _ | undefinedFunction _ => .undefinedReference
  | arityMismatch _ _ _ => .arityMismatch
  | returnInCoroutine | yieldOutsideCoroutine | definitionInCoroutine => .illegalControlFlow
  | scopeUnderflow | malformedTree _ => .internal

/-- The sentence that tells the cause. -/
def message : Cause → String
  | unrecognisedToken token => "token recognition error at: '" ++ token ++ "'"
  | unexpectedToken token => "unexpected token '" ++ token ++ "'"
  | unexpectedTokenDetailed token message =>
      "unexpected token '" ++ token ++ "', " ++ message
  | redefinition name => "'" ++ name ++ "' redefinition"
  | undefinedVariable name => name ++ " is undefined"
  | undefinedFunction name => name ++ "() is undefined"
  | arityMismatch name expected provided =>
      name ++ "() must have " ++ toString expected ++ " arguments, but " ++
        toString provided ++ " are provided"
  | returnInCoroutine => "Unable to use return in the coroutine function"
  | yieldOutsideCoroutine => "Unable to use yield in the default function"
  | definitionInCoroutine => "Unable to define variable in coroutine"
  | scopeUnderflow => "attempted to leave the global scope"
  | malformedTree expected => "malformed syntax tree: expected " ++ expected

/-- What may help the author of the program; nothing for most causes. -/
def tip? : Cause → Option String
  | unexpectedToken _ => some "did you miss a semicolon?"
  | redefinition _ =>
      some "names cannot be reused while an earlier declaration is visible"
  | undefinedFunction _ =>
      some "define the function or forward-declare it before the call"
  | definitionInCoroutine =>
      some "coroutines may only assign to parameters or existing variables"
  | returnInCoroutine => some "use yield to hand a value back"
  | _ => none

end Cause

/-- A cause together with the place it is reported at. -/
structure Error where
  cause : Cause
  position : Position
deriving DecidableEq, Repr

end Coroscript
