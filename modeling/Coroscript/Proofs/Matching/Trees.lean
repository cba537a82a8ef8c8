import Coroscript.Proofs.Grammar.Spelling
import Coroscript.Proofs.Static.Rules
import Mathlib.Data.List.Forall2

namespace Coroscript

/-! Tokens and trees that are the same but for where they stand. How the places
correspond is a relation `positions`; it is asked of the starts of spans only. -/

variable (positions : Position → Position → Prop)

structure Token.Matches (left right : Token) : Prop where
  word : left.SameWord right
  start : positions left.span.start right.span.start

inductive Expr.Matches : Expr → Expr → Prop
  | number {text : String} {span span' : Span} (hstart : positions span.start span'.start) :
      Matches (.number text span) (.number text span')
  | symbol {name : String} {span span' : Span} (hstart : positions span.start span'.start) :
      Matches (.symbol name span) (.symbol name span')
  | string {bytes : List UInt8} {span span' : Span}
      (hstart : positions span.start span'.start) :
      Matches (.string bytes span) (.string bytes span')
  | binary {left left' right right' : Expr} {operator operator' : Token} {span span' : Span}
      (hleft : Matches left left') (hoperator : operator.SameWord operator')
      (hright : Matches right right') (hstart : positions span.start span'.start) :
      Matches (.binary left operator right span) (.binary left' operator' right' span')
  | unary {operand operand' : Expr} {operator operator' : Token} {span span' : Span}
      (hoperator : operator.SameWord operator') (hoperand : Matches operand operand')
      (hstart : positions span.start span'.start) :
      Matches (.unary operator operand span) (.unary operator' operand' span')
  | percent {operand operand' : Expr} {span span' : Span} (hoperand : Matches operand operand')
      (hstart : positions span.start span'.start) :
      Matches (.percent operand span) (.percent operand' span')
  | grouping {inner inner' : Expr} {span span' : Span} (hinner : Matches inner inner')
      (hstart : positions span.start span'.start) :
      Matches (.grouping inner span) (.grouping inner' span')
  | conversion {target : NumericType} {value value' : Expr} {span span' : Span}
      (hvalue : Matches value value') (hstart : positions span.start span'.start) :
      Matches (.conversion target value span) (.conversion target value' span')
  | call {callee : String} {arguments arguments' : List Expr} {span span' : Span}
      (harguments : List.Forall₂ Matches arguments arguments')
      (hstart : positions span.start span'.start) :
      Matches (.call callee arguments span) (.call callee arguments' span')
  | next {coroutine coroutine' : Expr} {span span' : Span}
      (hcoroutine : Matches coroutine coroutine') (hstart : positions span.start span'.start) :
      Matches (.next coroutine span) (.next coroutine' span')
  | create {callee : String} {arguments arguments' : List Expr}
      {callSpan callSpan' span span' : Span}
      (harguments : List.Forall₂ Matches arguments arguments')
      (hcall : positions callSpan.start callSpan'.start)
      (hstart : positions span.start span'.start) :
      Matches (.create callee arguments callSpan span) (.create callee arguments' callSpan' span')

def Parameter.Matches (left right : Parameter) : Prop :=
  left.name = right.name ∧ positions left.span.start right.span.start

variable (loose : Prop)

/-- Matching statements of a body. Only if `loose` holds may both be definitions,
which no body should hold. -/
inductive Stmt.Matches : Stmt → Stmt → Prop
  | block {body body' : List Stmt} {span span' : Span} (hbody : List.Forall₂ Matches body body')
      (hstart : positions span.start span'.start) :
      Matches (.block body span) (.block body' span')
  | expression {value value' : Expr} {span span' : Span} (hvalue : value.Matches positions value')
      (hstart : positions span.start span'.start) :
      Matches (.expression value span) (.expression value' span')
  | define {name : String} {value value' : Expr} {span span' : Span}
      (hvalue : value.Matches positions value') (hstart : positions span.start span'.start) :
      Matches (.define name value span) (.define name value' span')
  | ifThen {condition condition' : Expr} {thenBody thenBody' : Stmt} {span span' : Span}
      (hcondition : condition.Matches positions condition') (hthen : Matches thenBody thenBody')
      (hstart : positions span.start span'.start) :
      Matches (.ifThen condition thenBody span) (.ifThen condition' thenBody' span')
  | ifElse {condition condition' : Expr} {thenBody thenBody' elseBody elseBody' : Stmt}
      {span span' : Span} (hcondition : condition.Matches positions condition')
      (hthen : Matches thenBody thenBody') (helse : Matches elseBody elseBody')
      (hstart : positions span.start span'.start) :
      Matches (.ifElse condition thenBody elseBody span)
        (.ifElse condition' thenBody' elseBody' span')
  | returns {value? value?' : Option Expr} {span span' : Span}
      (hvalue : Option.Rel (Expr.Matches positions) value? value?')
      (hstart : positions span.start span'.start) :
      Matches (.returns value? span) (.returns value?' span')
  | yields {value value' : Expr} {span span' : Span} (hvalue : value.Matches positions value')
      (hstart : positions span.start span'.start) :
      Matches (.yields value span) (.yields value' span')
  | print {arguments arguments' : List Expr} {span span' : Span}
      (harguments : List.Forall₂ (Expr.Matches positions) arguments arguments')
      (hstart : positions span.start span'.start) :
      Matches (.print arguments span) (.print arguments' span')
  | misplaced {left right : Stmt} (hloose : loose) (hleft : left.declaration?.isSome)
      (hright : right.declaration?.isSome)
      (hstart : positions left.span.start right.span.start) : Matches left right

/-- Matching definitions of the top level. Only if `loose` holds may both be something
else. -/
inductive Stmt.MatchesItem : Stmt → Stmt → Prop
  | define {name : String} {value value' : Expr} {span span' : Span}
      (hvalue : value.Matches positions value') (hstart : positions span.start span'.start) :
      MatchesItem (.define name value span) (.define name value' span')
  | forwardFunction {name : String} {parameters parameters' : List Parameter}
      {span span' : Span}
      (hparameters : List.Forall₂ (Parameter.Matches positions) parameters parameters')
      (hstart : positions span.start span'.start) :
      MatchesItem (.forwardFunction name parameters span) (.forwardFunction name parameters' span')
  | function {name : String} {parameters parameters' : List Parameter} {body body' : List Stmt}
      {bodySpan bodySpan' span span' : Span}
      (hparameters : List.Forall₂ (Parameter.Matches positions) parameters parameters')
      (hbody : List.Forall₂ (Stmt.Matches positions loose) body body')
      (hstart : positions span.start span'.start) :
      MatchesItem (.function name parameters body bodySpan span)
        (.function name parameters' body' bodySpan' span')
  | forwardCoroutine {name : String} {parameters parameters' : List Parameter}
      {span span' : Span}
      (hparameters : List.Forall₂ (Parameter.Matches positions) parameters parameters')
      (hstart : positions span.start span'.start) :
      MatchesItem (.forwardCoroutine name parameters span)
        (.forwardCoroutine name parameters' span')
  | coroutine {name : String} {parameters parameters' : List Parameter} {body body' : List Stmt}
      {bodySpan bodySpan' span span' : Span}
      (hparameters : List.Forall₂ (Parameter.Matches positions) parameters parameters')
      (hbody : List.Forall₂ (Stmt.Matches positions loose) body body')
      (hstart : positions span.start span'.start) :
      MatchesItem (.coroutine name parameters body bodySpan span)
        (.coroutine name parameters' body' bodySpan' span')
  | entryPoint {parameters parameters' : List Parameter} {body body' : List Stmt}
      {bodySpan bodySpan' span span' : Span}
      (hbody : List.Forall₂ (Stmt.Matches positions loose) body body')
      (hstart : positions span.start span'.start) :
      MatchesItem (.entryPoint parameters body bodySpan span)
        (.entryPoint parameters' body' bodySpan' span')
  | misplaced {left right : Stmt} (hloose : loose)
      (hleft : left.defined? = none ∧ left.declaration? = none)
      (hright : right.defined? = none ∧ right.declaration? = none)
      (hstart : positions left.span.start right.span.start) : MatchesItem left right

structure Program.Matches (left right : Program) : Prop where
  items : List.Forall₂ (Stmt.MatchesItem positions loose) left.items right.items
  stop : positions left.span.stop right.span.stop

/-- Faults that can be reported: a frame is never left that was not entered, and only
if `loose` holds can a tree be found malformed. -/
def Cause.Reportable : Cause → Prop
  | .scopeUnderflow => False
  | .malformedTree _ => loose
  | _ => True

structure Error.Matches (left right : Error) : Prop where
  cause : left.cause = right.cause
  reportable : left.cause.Reportable loose
  position : positions left.position right.position

variable {positions loose}

theorem Expr.Matches.start {left right : Expr} (hmatches : left.Matches positions right) :
    positions left.span.start right.span.start := by
  cases hmatches <;> assumption

/-! Where every place corresponds to itself, every tree is like itself, if `loose` takes
in the trees that are no programs. -/

mutual

theorem Expr.Matches.refl (hrefl : ∀ position, positions position position) :
    ∀ value : Expr, value.Matches positions value
  | .number _ _ => .number (hrefl _)
  | .symbol _ _ => .symbol (hrefl _)
  | .string _ _ => .string (hrefl _)
  | .binary left _ right _ => .binary (refl hrefl left) ⟨rfl, rfl⟩ (refl hrefl right) (hrefl _)
  | .unary _ operand _ => .unary ⟨rfl, rfl⟩ (refl hrefl operand) (hrefl _)
  | .percent operand _ => .percent (refl hrefl operand) (hrefl _)
  | .grouping inner _ => .grouping (refl hrefl inner) (hrefl _)
  | .conversion _ value _ => .conversion (refl hrefl value) (hrefl _)
  | .call _ arguments _ => .call (refl_all hrefl arguments) (hrefl _)
  | .next coroutine _ => .next (refl hrefl coroutine) (hrefl _)
  | .create _ arguments _ _ => .create (refl_all hrefl arguments) (hrefl _) (hrefl _)

theorem Expr.Matches.refl_all (hrefl : ∀ position, positions position position) :
    ∀ values : List Expr, List.Forall₂ (Expr.Matches positions) values values
  | [] => .nil
  | first :: others => .cons (refl hrefl first) (refl_all hrefl others)

end

mutual

theorem Stmt.Matches.refl (hrefl : ∀ position, positions position position) (hloose : loose) :
    ∀ stmt : Stmt, stmt.Matches positions loose stmt
  | .block body _ => .block (refl_all hrefl hloose body) (hrefl _)
  | .expression value _ => .expression (.refl hrefl value) (hrefl _)
  | .define _ value _ => .define (.refl hrefl value) (hrefl _)
  | .ifThen condition thenBody _ =>
      .ifThen (.refl hrefl condition) (refl hrefl hloose thenBody) (hrefl _)
  | .ifElse condition thenBody elseBody _ =>
      .ifElse (.refl hrefl condition) (refl hrefl hloose thenBody)
        (refl hrefl hloose elseBody) (hrefl _)
  | .returns none _ => .returns .none (hrefl _)
  | .returns (some value) _ => .returns (.some (.refl hrefl value)) (hrefl _)
  | .yields value _ => .yields (.refl hrefl value) (hrefl _)
  | .print arguments _ => .print (Expr.Matches.refl_all hrefl arguments) (hrefl _)
  | .forwardFunction _ _ _ | .function _ _ _ _ _ | .forwardCoroutine _ _ _
  | .coroutine _ _ _ _ _ | .entryPoint _ _ _ _ => .misplaced hloose rfl rfl (hrefl _)

theorem Stmt.Matches.refl_all (hrefl : ∀ position, positions position position)
    (hloose : loose) : ∀ body : List Stmt, List.Forall₂ (Stmt.Matches positions loose) body body
  | [] => .nil
  | first :: others => .cons (refl hrefl hloose first) (refl_all hrefl hloose others)

end

theorem Stmt.MatchesItem.refl (hrefl : ∀ position, positions position position)
    (hloose : loose) (item : Stmt) : item.MatchesItem positions loose item := by
  have hparameters (parameters : List Parameter) :
      List.Forall₂ (Parameter.Matches positions) parameters parameters :=
    List.forall₂_same.2 fun _ _ => ⟨rfl, hrefl _⟩
  have hbody (body : List Stmt) : List.Forall₂ (Stmt.Matches positions loose) body body :=
    Stmt.Matches.refl_all hrefl hloose body
  cases item with
  | define name value span => exact .define (.refl hrefl value) (hrefl _)
  | forwardFunction name parameters span =>
      exact .forwardFunction (hparameters parameters) (hrefl _)
  | function name parameters body bodySpan span =>
      exact .function (hparameters parameters) (hbody body) (hrefl _)
  | forwardCoroutine name parameters span =>
      exact .forwardCoroutine (hparameters parameters) (hrefl _)
  | coroutine name parameters body bodySpan span =>
      exact .coroutine (hparameters parameters) (hbody body) (hrefl _)
  | entryPoint parameters body bodySpan span => exact .entryPoint (hbody body) (hrefl _)
  | block | expression | ifThen | ifElse | returns | yields | print =>
      exact .misplaced hloose ⟨rfl, rfl⟩ ⟨rfl, rfl⟩ (hrefl _)

theorem Program.Matches.refl (hrefl : ∀ position, positions position position) (hloose : loose)
    (program : Program) : program.Matches positions loose program :=
  ⟨List.forall₂_same.2 fun item _ => .refl hrefl hloose item, hrefl _⟩

end Coroscript
