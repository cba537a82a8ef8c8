import Coroscript.Cpp.Resumable
import Coroscript.Proofs.Emit.Reference
import Coroscript.Tree.Stmt

namespace Coroscript

/-! The static rules of the language, said of trees alone: there are no frames, no
table of callables, and nothing is entered or left. -/

/-- What can be used at a place in a body. -/
structure Context where
  values : List String
  callables : List Signature
  inCoroutine : Bool

namespace Context

def Means (context : Context) : Reference → Prop
  | .value name => name ∈ context.values
  | .call name count =>
      ∃ declaration ∈ context.callables, declaration.name = name ∧ declaration.arity = count

def Covers (context : Context) (value : Expr) : Prop :=
  ∀ reference ∈ value.references, context.Means reference

def IsCallable (context : Context) (name : String) : Prop :=
  ∃ declaration ∈ context.callables, declaration.name = name

def declare (context : Context) (name? : Option String) : Context :=
  { context with values := name?.toList ++ context.values }

end Context

namespace Stmt

/-- The variable that a statement brings into view of the statements after it. -/
def defined? : Stmt → Option String
  | define name _ _ => some name
  | _ => none

mutual

/-- A statement that is allowed where it stands. What a block or a branch defines is
not seen behind it. -/
def Legal (context : Context) : Stmt → Prop
  | .expression value _ => context.Covers value
  | .block body _ => LegalAll context body
  | .define name value _ =>
      context.Covers value ∧
        (name ∈ context.values ∨ context.inCoroutine = false ∧ ¬ context.IsCallable name)
  | .ifThen condition thenBody _ => context.Covers condition ∧ thenBody.Legal context
  | .ifElse condition thenBody elseBody _ =>
      context.Covers condition ∧ thenBody.Legal context ∧ elseBody.Legal context
  | .returns value? _ => context.inCoroutine = false ∧ ∀ value ∈ value?, context.Covers value
  | .yields value _ => context.inCoroutine = true ∧ context.Covers value
  | .print arguments _ => ∀ argument ∈ arguments, context.Covers argument
  | .forwardFunction _ _ _ | .function _ _ _ _ _ | .forwardCoroutine _ _ _
  | .coroutine _ _ _ _ _ | .entryPoint _ _ _ _ => False

def LegalAll (context : Context) : List Stmt → Prop
  | [] => True
  | first :: others => first.Legal context ∧ LegalAll (context.declare first.defined?) others

end

/-- What a top-level definition says of a callable. The parameters of the entry point
do not count. -/
def declaration? : Stmt → Option Signature
  | forwardFunction name parameters _ => some ⟨name, parameters.length, .function, false⟩
  | function name parameters _ _ _ => some ⟨name, parameters.length, .function, true⟩
  | forwardCoroutine name parameters _ => some ⟨name, parameters.length, .coroutine, false⟩
  | coroutine name parameters _ _ _ => some ⟨name, parameters.length, .coroutine, true⟩
  | entryPoint _ _ _ _ => some ⟨entryName, 0, .entryPoint, true⟩
  | _ => none

end Stmt

def globals (items : List Stmt) : List String :=
  items.filterMap Stmt.defined?

def declarations (items : List Stmt) : List Signature :=
  items.filterMap Stmt.declaration?

/-- A callable is declared once, or once ahead of its definition. -/
def Signature.Admissible (declaration : Signature) (before : List Stmt) : Prop :=
  declaration.name ∉ globals before ∧
    ((∀ earlier ∈ declarations before, earlier.name ≠ declaration.name) ∨
      declaration.defined = true ∧
        (declarations before).filter (fun earlier => earlier.name == declaration.name) =
          [{ declaration with defined := false }])

namespace Stmt

def bodyContext (before : List Stmt) (item : Stmt) (parameters : List Parameter)
    (inCoroutine : Bool) : Context :=
  ⟨parameters.map Parameter.name ++ globals before, declarations (before ++ [item]), inCoroutine⟩

def FreshParameters (before : List Stmt) (item : Stmt) (parameters : List Parameter) : Prop :=
  (parameters.map Parameter.name).Nodup ∧
    ∀ parameter ∈ parameters, parameter.name ∉ globals before ∧
      ∀ declaration ∈ declarations (before ++ [item]), declaration.name ≠ parameter.name

/-- No name that the body of the coroutine `item` can see is that of its counter. -/
def CounterFree (before : List Stmt) (item : Stmt) (parameters : List Parameter) : Prop :=
  (∀ parameter ∈ parameters, parameter.name ≠ Cpp.stateField) ∧ Cpp.stateField ∉ globals before ∧
    ∀ declaration ∈ declarations (before ++ [item]), declaration.name ≠ Cpp.stateField

def LegalContents (before : List Stmt) (item : Stmt) : Prop :=
  match item with
  | define name value _ =>
      Context.Covers ⟨globals before, declarations before, false⟩ value ∧
        name ∉ globals before ∧ ∀ declaration ∈ declarations before, declaration.name ≠ name
  | forwardFunction _ _ _ | forwardCoroutine _ _ _ => True
  | function _ parameters body _ _ =>
      FreshParameters before item parameters ∧
        LegalAll (bodyContext before item parameters false) body
  | coroutine _ parameters body _ _ =>
      CounterFree before item parameters ∧ FreshParameters before item parameters ∧
        LegalAll (bodyContext before item parameters true) body
  | entryPoint _ body _ _ => LegalAll (bodyContext before item [] false) body
  | _ => False

def LegalAfter (before : List Stmt) (item : Stmt) : Prop :=
  (∀ declaration ∈ item.declaration?, declaration.Admissible before) ∧ item.LegalContents before

end Stmt

/-- Every definition is allowed where it stands, and one of them is the entry point. -/
def Program.WellFormed (program : Program) : Prop :=
  (∀ before item after, program.items = before ++ item :: after → item.LegalAfter before) ∧
    ∃ parameters body bodySpan span,
      Stmt.entryPoint parameters body bodySpan span ∈ program.items

end Coroscript
