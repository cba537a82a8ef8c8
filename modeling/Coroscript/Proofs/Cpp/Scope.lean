import Coroscript.Cpp.Function
import Coroscript.Cpp.Resumable
import Coroscript.Proofs.Cpp.Grammar

namespace Coroscript.Cpp

/-! Output programs as trees: their texts, and the declarations that are in scope where
they name a variable. A scope is what stands in one pair of braces. -/

mutual

/-- The variables that an expression reads, in the order of its words. A function that is called
by its name is none. -/
def Term.reads : Term → List String
  | .name text => [text]
  | .qualified _ _ | .number _ | .string _ => []
  | .unary _ operand => operand.reads
  | .binary _ left right => left.reads ++ right.reads
  | .call (.name _) arguments => Term.readsAll arguments
  | .call function arguments => function.reads ++ Term.readsAll arguments
  | .member object _ => object.reads
  | .cast _ value => value.reads

def Term.readsAll : List Term → List String
  | [] => []
  | first :: others => first.reads ++ Term.readsAll others

end

/-- The text of an expression, and how its words group. -/
structure Expression where
  text : String
  term : Term

inductive Statement where
  | evaluate (value : Expression)
  | declare (name : String) (value : Expression)
  | assign (name : String) (value : Expression)
  | print (arguments : List Expression)
  | leave (value? : Option Expression)
  | suspend (index : Nat) (value : Expression)
  | block (body : List Statement)
  | ifThen (condition : Expression) (thenBody : List Statement)
  | ifElse (condition : Expression) (thenBody elseBody : List Statement)

namespace Statement

mutual

def text : Statement → String
  | .evaluate value => terminate value.text
  | .declare name value => "auto " ++ name ++ " = " ++ value.text ++ ";"
  | .assign name value => name ++ " = " ++ value.text ++ ";"
  | .print arguments =>
      "std::cout" ++ String.join (arguments.map fun argument => " << " ++ argument.text) ++
        " << \"\\n\";"
  | .leave none => "return;"
  | .leave (some value) => "return " ++ value.text ++ ";"
  | .suspend index value =>
      stateField ++ "++;\nreturn " ++ value.text ++ ";\n" ++ resumeLabel index ++ ":;"
  | .block body => braced (texts body)
  | .ifThen condition thenBody =>
      "if " ++ ("(" ++ condition.text ++ ")") ++ " " ++ braced (texts thenBody)
  | .ifElse condition thenBody elseBody =>
      "if " ++ ("(" ++ condition.text ++ ")") ++ " " ++ braced (texts thenBody) ++
        " else " ++ braced (texts elseBody)

def texts : List Statement → List String
  | [] => []
  | first :: others => first.text :: texts others

end

end Statement

inductive Definition where
  | global (name : String) (value : Expression)
  | forwardFunction (name : String) (parameters : List String)
  | function (name : String) (parameters : List String) (body : List Statement)
  | entryPoint (body : List Statement)
  | forwardClass (name : String) (arity : Nat)
  | resumable (name : String) (parameters : List String) (yieldCount : Nat)
      (body : List Statement)

def Definition.text : Definition → String
  | .global name value => "auto " ++ name ++ " = " ++ value.text ++ ";"
  | .forwardFunction name parameters => (FunctionHead.generic name parameters).forward
  | .function name parameters body =>
      (FunctionHead.generic name parameters).definition (braced (Statement.texts body))
  | .entryPoint body => FunctionHead.entryPoint.definition (braced (Statement.texts body))
  | .forwardClass name arity => Resumable.forward name arity
  | .resumable name parameters yieldCount body =>
      (Resumable.mk name parameters ⟨parameters.length, yieldCount⟩
        (Statement.texts body)).render

/-! Scopes. -/

/-- The open scopes, the innermost first, each with the names that it declares. -/
abbrev ScopeChain := List (List String)

namespace ScopeChain

/-- The scopes that declare a name, one entry for each declaration, counted from the
innermost on. -/
def sites (name : String) : ScopeChain → List Nat
  | [] => []
  | scope :: outer => List.replicate (scope.count name) 0 ++ (sites name outer).map (· + 1)

def declare (name : String) : ScopeChain → ScopeChain
  | [] => [[name]]
  | scope :: outer => (name :: scope) :: outer

theorem sites_enter (name : String) (scopes : ScopeChain) :
    sites name ([] :: scopes) = (sites name scopes).map (· + 1) := by
  rw [sites, List.count_nil, List.replicate_zero, List.nil_append]

theorem sites_declare (name other : String) (scopes : ScopeChain) :
    sites other (scopes.declare name) =
      if name = other then 0 :: sites other scopes else sites other scopes := by
  cases scopes with
  | nil => by_cases hname : name = other <;> simp [declare, sites, hname]
  | cons scope outer =>
      by_cases hname : name = other
      · simp [declare, sites, hname, List.replicate_succ]
      · simp [declare, sites, hname]

theorem sites_eq_nil_iff (name : String) (scopes : ScopeChain) :
    sites name scopes = [] ↔ ∀ scope ∈ scopes, name ∉ scope := by
  induction scopes with
  | nil => simp [sites]
  | cons scope outer ih => simp [sites, ih, List.count_eq_zero]

theorem length_sites (name : String) (scopes : ScopeChain) :
    (sites name scopes).length = scopes.flatten.count name := by
  induction scopes with
  | nil => rfl
  | cons scope outer ih => simp [sites, ih]

end ScopeChain

/-- What a word does with the variable that it names. -/
inductive Role where
  | declaration
  | assignment
  | use
deriving DecidableEq, Repr

/-- A place that names a variable, with the scopes that declare the name there. -/
structure Occurrence where
  role : Role
  name : String
  sites : List Nat
deriving DecidableEq, Repr

namespace Occurrence

/-- A declaration is of a new name; everything else is of a name that is declared once. -/
def Bound (occurrence : Occurrence) : Prop :=
  match occurrence.role with
  | .declaration => occurrence.sites = []
  | .assignment | .use => ∃ site, occurrence.sites = [site]

def uses (scopes : ScopeChain) (names : List String) : List Occurrence :=
  names.map fun name => ⟨.use, name, scopes.sites name⟩

end Occurrence

open Occurrence

def Expression.occurrences (scopes : ScopeChain) (value : Expression) : List Occurrence :=
  uses scopes value.term.reads

namespace Statement

/-- The scopes behind a statement. -/
def past (scopes : ScopeChain) : Statement → ScopeChain
  | .declare name _ => scopes.declare name
  | _ => scopes

mutual

/-- The places of a statement that name a variable. A name is in scope from its declaration
on, so in its own initial value already. -/
def occurrences (scopes : ScopeChain) : Statement → List Occurrence
  | .evaluate value => value.occurrences scopes
  | .declare name value =>
      ⟨.declaration, name, scopes.sites name⟩ :: value.occurrences (scopes.declare name)
  | .assign name value => ⟨.assignment, name, scopes.sites name⟩ :: value.occurrences scopes
  | .print arguments => arguments.flatMap (Expression.occurrences scopes)
  | .leave value? => value?.toList.flatMap (Expression.occurrences scopes)
  | .suspend _ value => value.occurrences scopes
  | .block body => occurrencesAll ([] :: scopes) body
  | .ifThen condition thenBody =>
      condition.occurrences scopes ++ occurrencesAll ([] :: scopes) thenBody
  | .ifElse condition thenBody elseBody =>
      condition.occurrences scopes ++ occurrencesAll ([] :: scopes) thenBody ++
        occurrencesAll ([] :: scopes) elseBody

def occurrencesAll (scopes : ScopeChain) : List Statement → List Occurrence
  | [] => []
  | first :: others => first.occurrences scopes ++ occurrencesAll (first.past scopes) others

end

end Statement

namespace Definition

def past (globals : List String) : Definition → List String
  | .global name _ => name :: globals
  | _ => globals

/-- The parameters of a coroutine are members of its class, as its counter is. -/
def occurrences (globals : List String) : Definition → List Occurrence
  | .global name value =>
      ⟨.declaration, name, ScopeChain.sites name [globals]⟩ :: value.occurrences [name :: globals]
  | .function _ parameters body =>
      Statement.occurrencesAll [[], parameters.reverse, globals] body
  | .entryPoint body => Statement.occurrencesAll [[], globals] body
  | .resumable _ parameters _ body =>
      Statement.occurrencesAll [[], (stateField :: parameters).reverse, globals] body
  | .forwardFunction _ _ | .forwardClass _ _ => []

def occurrencesAll (globals : List String) : List Definition → List Occurrence
  | [] => []
  | first :: others => first.occurrences globals ++ occurrencesAll (first.past globals) others

end Definition

end Coroscript.Cpp
