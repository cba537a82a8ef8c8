import Coroscript.Compile
import Coroscript.Proofs.Matching.Steps
import Coroscript.Proofs.Matching.Trees

namespace Coroscript.Emit

/-! Matching trees are emitted as one text, or refused alike. Both runs are in one state all
the way; every step tells how many frames are open before and after it, so that none is
left that was not entered. -/

open Emitter

variable {positions : Position → Position → Prop} {loose : Prop}

/-! Expressions. -/

section Texts

variable {value value' : Expr} (hvalue : value.Matches positions value')
include hvalue

theorem operand_eq (level : Nat) (side : Side) (code : String) :
    operand value level side code = operand value' level side code := by
  have hparens : needsParens value level side = needsParens value' level side := by
    cases hvalue with
    | binary _ hoperator _ _ => simp only [needsParens, hoperator.1]
    | number | symbol | string | unary | percent | grouping | conversion | call | next
    | create => rfl
  rw [operand, operand, hparens]

theorem unaryText_eq {operator operator' : Token} (hoperator : operator.SameWord operator')
    (code : String) : unaryText operator value code = unaryText operator' value' code := by
  cases hvalue <;> simp only [unaryText, hoperator.2]

theorem nextText_eq (code : String) : nextText value code = nextText value' code := by
  cases hvalue <;> rfl

theorem binaryText_eq {right right' : Expr} {operator operator' : Token}
    (hoperator : operator.SameWord operator') (hright : right.Matches positions right')
    (code rightCode : String) :
    binaryText value operator right code rightCode =
      binaryText value' operator' right' code rightCode := by
  unfold binaryText
  rw [hoperator.1, hoperator.2]
  simp only [operand_eq hvalue, operand_eq hright]

end Texts

theorem agree_resolve (names : Names) (callee : String) {arguments arguments' : List Expr}
    {start start' : Position}
    (harguments : List.Forall₂ (Expr.Matches positions) arguments arguments')
    (hstart : positions start start') :
    Agree Eq (Error.Matches positions loose) (names.resolve callee arguments.length start)
      (names.resolve callee arguments'.length start') := by
  unfold Names.resolve
  rw [harguments.length_eq]
  split
  · exact .error ⟨rfl, trivial, hstart⟩
  · split
    · exact .ok rfl
    · exact .error ⟨rfl, trivial, hstart⟩

mutual

theorem agree_expr (names : Names) : ∀ (left : Expr) {right : Expr},
    left.Matches positions right →
      Agree Eq (Error.Matches positions loose) (expr names left) (expr names right)
  | _, _, .number _ => .ok rfl
  | _, _, .string _ => .ok rfl
  | .symbol name span, _, .symbol hstart => by
      rw [expr, expr]
      split
      · exact .ok rfl
      · exact .error ⟨rfl, trivial, hstart⟩
  | .binary left operator right span, _, .binary hleft hoperator hright _ => by
      rw [expr, expr]
      apply (agree_expr names left hleft).bind
      intro leftText _ hleftText
      apply (agree_expr names right hright).bind
      intro rightText _ hrightText
      subst hleftText hrightText
      exact .ok (binaryText_eq hleft hoperator hright _ _)
  | .unary operator operand span, _, .unary hoperator hoperand _ => by
      rw [expr, expr]
      apply (agree_expr names operand hoperand).bind
      intro text _ htext
      subst htext
      exact .ok (unaryText_eq hoperand hoperator _)
  | .percent inner span, _, .percent hinner _ => by
      rw [expr, expr]
      apply (agree_expr names inner hinner).bind
      intro text _ htext
      subst htext
      rw [operand_eq hinner]
      exact .ok rfl
  | .grouping inner span, _, .grouping hinner _ => by
      rw [expr, expr]
      exact (agree_expr names inner hinner).bind_pure _
  | .conversion target value span, _, .conversion hvalue _ => by
      rw [expr, expr]
      exact (agree_expr names value hvalue).bind_pure _
  | .call callee arguments span, _, .call harguments hstart => by
      rw [expr, expr]
      apply (agree_resolve names callee harguments hstart).bind
      intro _ _ _
      exact (agree_exprs names arguments harguments).bind_pure _
  | .next coroutine span, _, .next hcoroutine _ => by
      rw [expr, expr]
      apply (agree_expr names coroutine hcoroutine).bind
      intro text _ htext
      subst htext
      exact .ok (nextText_eq hcoroutine _)
  | .create callee arguments callSpan span, _, .create harguments hcall _ => by
      rw [expr, expr]
      apply (agree_resolve names callee harguments hcall).bind
      intro _ _ _
      exact (agree_exprs names arguments harguments).bind_pure _

theorem agree_exprs (names : Names) : ∀ (left : List Expr) {right : List Expr},
    List.Forall₂ (Expr.Matches positions) left right →
      Agree Eq (Error.Matches positions loose) (exprs names left) (exprs names right)
  | _, _, .nil => .ok rfl
  | first :: others, _, .cons hfirst hothers => by
      rw [exprs, exprs]
      apply (agree_expr names first hfirst).bind
      intro text _ htext
      apply (agree_exprs names others hothers).bind
      intro texts _ htexts
      subst htext htexts
      exact .ok rfl

end

theorem agree_streamOperand (names : Names) {value value' : Expr}
    (hvalue : value.Matches positions value') :
    Agree Eq (Error.Matches positions loose) (streamOperand names value)
      (streamOperand names value') := by
  apply (agree_expr names value hvalue).bind
  intro text _ htext
  subst htext
  rw [operand_eq hvalue]
  exact .ok rfl

/-! Steps. -/

/-- One state, with `depth` frames open inside the global one. -/
def At (depth : Nat) (left right : State) : Prop :=
  left = right ∧ left.names.scopes.depth = depth

abbrev Relates {α : Type} (positions : Position → Position → Prop) (loose : Prop)
    (before after : Nat) (left right : Emitter α) : Prop :=
  Action.Relates (At before) (At after) Eq (Error.Matches positions loose) left right

variable {α : Type} {depth after : Nat}

theorem relates_read {view view' : Names → Except Error α}
    (hview : ∀ names, Agree Eq (Error.Matches positions loose) (view names) (view' names)) :
    Relates positions loose depth depth (read view) (read view') := by
  intro state state' hstates
  obtain ⟨rfl, hdepth⟩ := hstates
  exact ⟨hview state.names, fun _ _ => ⟨rfl, hdepth⟩⟩

theorem relates_expr {value value' : Expr} (hvalue : value.Matches positions value') :
    Relates positions loose depth depth (read fun names => expr names value)
      (read fun names => expr names value') :=
  relates_read fun names => agree_expr names value hvalue

theorem relates_get : Relates positions loose depth depth Action.get Action.get := by
  intro state state' hstates
  exact ⟨.ok hstates.1, fun _ _ => hstates⟩

theorem relates_setBody (body : Body) :
    Relates positions loose depth depth (setBody body) (setBody body) := by
  intro state state' hstates
  obtain ⟨rfl, hdepth⟩ := hstates
  exact ⟨.ok rfl, fun _ _ => ⟨rfl, hdepth⟩⟩

theorem relates_update {change change' : Names → Except Error Names}
    (hchange : ∀ names, names.scopes.depth = depth →
      Agree (fun left right => left = right ∧ left.scopes.depth = after)
        (Error.Matches positions loose) (change names) (change' names)) :
    Relates positions loose depth after (update change) (update change') := by
  intro state state' hstates
  obtain ⟨rfl, hdepth⟩ := hstates
  have hagree := hchange state.names hdepth
  unfold update
  revert hagree
  generalize change state.names = result
  generalize change' state.names = result'
  intro hagree
  cases hagree with
  | ok hnames =>
      obtain ⟨rfl, hafter⟩ := hnames
      exact ⟨.ok rfl, fun _ _ => ⟨rfl, hafter⟩⟩
  | error herrors => exact ⟨.error herrors, fun _ herror => nomatch herror⟩

theorem relates_enter : Relates positions loose depth (depth + 1) enter enter := by
  apply relates_update
  intro names hdepth
  exact .ok ⟨rfl, congrArg (· + 1) hdepth⟩

theorem relates_exit (stop stop' : Position) :
    Relates positions loose (depth + 1) depth (exit stop) (exit stop') := by
  apply relates_update
  intro names hdepth
  unfold Names.exit Scopes.exit?
  cases hinner : names.scopes.inner with
  | nil => simp [Scopes.depth, hinner] at hdepth
  | cons frame inner =>
      simp only [Scopes.depth, hinner, List.length_cons, Nat.add_right_cancel_iff] at hdepth
      exact .ok ⟨rfl, hdepth⟩

theorem relates_declare (name : String) {start start' : Position}
    (hstart : positions start start') :
    Relates positions loose depth depth (declare name start) (declare name start') := by
  apply relates_update
  intro names hdepth
  unfold Names.declare
  split
  · exact .error ⟨rfl, trivial, hstart⟩
  · refine .ok ⟨rfl, ?_⟩
    rw [← hdepth]
    unfold Scopes.insert
    split <;> simp [Scopes.depth, *]

theorem relates_register (declaration : Signature) {start start' : Position}
    (hstart : positions start start') :
    Relates positions loose depth depth (register declaration start)
      (register declaration start') := by
  apply relates_update
  intro names hdepth
  unfold Names.register
  split
  · exact .error ⟨rfl, trivial, hstart⟩
  · split
    · exact .ok ⟨rfl, hdepth⟩
    · exact .error ⟨rfl, trivial, hstart⟩

theorem relates_inFrame {run run' : Emitter α} (stop stop' : Position)
    (hrun : Relates positions loose (depth + 1) (depth + 1) run run') :
    Relates positions loose depth depth (inFrame stop run) (inFrame stop' run') := by
  apply relates_enter.bind
  intro _ _ _
  apply hrun.bind
  intro result _ hresult
  subst hresult
  exact (relates_exit stop stop').bind_pure _

theorem relates_withBody (body : Body) {run run' : Emitter α}
    (hrun : Relates positions loose depth depth run run') :
    Relates positions loose depth depth (withBody body run) (withBody body run') := by
  intro state state' hstates
  obtain ⟨rfl, hdepth⟩ := hstates
  obtain ⟨hagree, hafter⟩ := hrun { state with body } { state with body } ⟨rfl, hdepth⟩
  unfold withBody
  revert hagree hafter
  generalize run { state with body } = ends
  generalize run' { state with body } = ends'
  obtain ⟨result, after⟩ := ends
  obtain ⟨result', after'⟩ := ends'
  intro hagree hafter
  cases hagree with
  | ok hresults =>
      obtain ⟨rfl, hdepth⟩ := hafter _ rfl
      subst hresults
      exact ⟨.ok rfl, fun _ _ => ⟨rfl, hdepth⟩⟩
  | error herrors => exact ⟨.error herrors, fun _ herror => nomatch herror⟩

theorem relates_declareParameters {parameters parameters' : List Parameter}
    (hparameters : List.Forall₂ (Parameter.Matches positions) parameters parameters') :
    Relates positions loose depth (depth + 1) (declareParameters parameters)
      (declareParameters parameters') := by
  apply relates_enter.bind
  intro _ _ _
  apply Action.Relates.forM hparameters
  intro parameter parameter' hparameter
  obtain ⟨hname, hstart⟩ := hparameter
  rw [hname]
  exact relates_declare _ hstart

/-! Statements. -/

theorem relates_define (name : String) {value value' : Expr} {span span' : Span}
    (hvalue : value.Matches positions value') (hstart : positions span.start span'.start) :
    Relates positions loose depth depth (define name value span) (define name value' span') := by
  apply (relates_expr hvalue).bind
  intro text _ htext
  apply relates_get.bind
  intro state _ hstate
  subst htext hstate
  split
  · exact .pure rfl
  · split
    · exact .fail ⟨rfl, trivial, hstart⟩
    · exact (relates_declare name hstart).bind_pure _

theorem relates_returns {value? value?' : Option Expr} {span span' : Span}
    (hvalue : Option.Rel (Expr.Matches positions) value? value?')
    (hstart : positions span.start span'.start) :
    Relates positions loose depth depth (returns value? span) (returns value?' span') := by
  apply relates_get.bind
  intro state _ hstate
  subst hstate
  split
  · exact .fail ⟨rfl, trivial, hstart⟩
  · cases hvalue with
    | none => exact .pure rfl
    | some hvalue =>
        exact (relates_expr hvalue).bind_pure _

theorem relates_yields {value value' : Expr} {span span' : Span}
    (hvalue : value.Matches positions value') (hstart : positions span.start span'.start) :
    Relates positions loose depth depth (yields value span) (yields value' span') := by
  apply relates_get.bind
  intro state _ hstate
  subst hstate
  split
  · apply (relates_expr hvalue).bind
    intro text _ htext
    subst htext
    exact (relates_setBody _).bind_pure _
  · exact .fail ⟨rfl, trivial, hstart⟩

theorem relates_print {arguments arguments' : List Expr}
    (harguments : List.Forall₂ (Expr.Matches positions) arguments arguments') :
    Relates positions loose depth depth (print arguments) (print arguments') := by
  have htexts : Relates positions loose depth depth
      (read fun names => arguments.mapM (streamOperand names))
      (read fun names => arguments'.mapM (streamOperand names)) := by
    apply relates_read
    intro names
    apply (Agree.mapM harguments fun _ _ hvalue => agree_streamOperand names hvalue).mono
    · intro texts texts' htexts
      exact List.forall₂_eq_eq_eq ▸ htexts
    · intro _ _ herrors
      exact herrors
  exact htexts.bind_pure _

theorem branch_of_declaration {body : Stmt} (hbody : body.declaration?.isSome)
    (run : Emitter String) :
    branch body run =
      (inFrame body.span.stop run >>= fun text => pure (Cpp.braced [text])) := by
  cases body with
  | block | expression | define | ifThen | ifElse | returns | yields | print => contradiction
  | forwardFunction | function | forwardCoroutine | coroutine | entryPoint => rfl

theorem stmt_of_declaration {tree : Stmt} (htree : tree.declaration?.isSome) :
    stmt tree = Action.fail ⟨.malformedTree "statement", tree.span.start⟩ := by
  cases tree with
  | block | expression | define | ifThen | ifElse | returns | yields | print => contradiction
  | forwardFunction | function | forwardCoroutine | coroutine | entryPoint =>
      rw [stmt]
      rfl

theorem relates_branch {body body' : Stmt} {run run' : Emitter String}
    (hbody : body.Matches positions loose body')
    (hrun : ∀ depth, Relates positions loose depth depth run run') :
    Relates positions loose depth depth (branch body run) (branch body' run') := by
  have hframe (stop stop' : Position) : Relates positions loose depth depth
      (inFrame stop run >>= fun text => pure (Cpp.braced [text]))
      (inFrame stop' run' >>= fun text => pure (Cpp.braced [text])) := by
    exact (relates_inFrame stop stop' (hrun _)).bind_pure _
  cases hbody with
  | block => exact hrun depth
  | expression | define | ifThen | ifElse | returns | yields | print => exact hframe _ _
  | misplaced _ hleft hright _ =>
      rw [branch_of_declaration hleft, branch_of_declaration hright]
      exact hframe _ _

mutual

theorem relates_stmt : ∀ (left : Stmt) {right : Stmt} (depth : Nat),
    left.Matches positions loose right →
      Relates positions loose depth depth (stmt left) (stmt right)
  | .block body span, _, depth, .block hbody _ => by
      rw [stmt, stmt]
      exact (relates_inFrame _ _ (relates_stmts body (depth + 1) hbody)).bind_pure _
  | .expression value span, _, depth, .expression hvalue _ => by
      rw [stmt, stmt]
      exact (relates_expr hvalue).bind_pure _
  | .define name value span, _, depth, .define hvalue hstart => by
      rw [stmt, stmt]
      exact relates_define name hvalue hstart
  | .ifThen condition thenBody span, _, depth, .ifThen hcondition hthen _ => by
      rw [stmt, stmt]
      apply (relates_expr hcondition).bind
      intro test _ htest
      apply (relates_branch hthen fun depth => relates_stmt thenBody depth hthen).bind
      intro thenText _ hthenText
      subst htest hthenText
      exact .pure rfl
  | .ifElse condition thenBody elseBody span, _, depth, .ifElse hcondition hthen helse _ => by
      rw [stmt, stmt]
      apply (relates_expr hcondition).bind
      intro test _ htest
      apply (relates_branch hthen fun depth => relates_stmt thenBody depth hthen).bind
      intro thenText _ hthenText
      apply (relates_branch helse fun depth => relates_stmt elseBody depth helse).bind
      intro elseText _ helseText
      subst htest hthenText helseText
      exact .pure rfl
  | .returns value? span, _, depth, .returns hvalue hstart => by
      rw [stmt, stmt]
      exact relates_returns hvalue hstart
  | .yields value span, _, depth, .yields hvalue hstart => by
      rw [stmt, stmt]
      exact relates_yields hvalue hstart
  | .print arguments span, _, depth, .print harguments _ => by
      rw [stmt, stmt]
      exact relates_print harguments
  | left, right, depth, .misplaced hloose hleft hright hstart => by
      rw [stmt_of_declaration hleft, stmt_of_declaration hright]
      exact .fail ⟨rfl, hloose, hstart⟩

theorem relates_stmts : ∀ (left : List Stmt) {right : List Stmt} (depth : Nat),
    List.Forall₂ (Stmt.Matches positions loose) left right →
      Relates positions loose depth depth (stmts left) (stmts right)
  | _, _, depth, .nil => by
      rw [stmts]
      exact .pure rfl
  | first :: others, _, depth, .cons hfirst hothers => by
      rw [stmts, stmts]
      apply (relates_stmt first depth hfirst).bind
      intro text _ htext
      apply (relates_stmts others depth hothers).bind
      intro texts _ htexts
      subst htext htexts
      exact .pure rfl

end

theorem relates_blockContents {body body' : List Stmt} (span span' : Span)
    (hbody : List.Forall₂ (Stmt.Matches positions loose) body body') :
    Relates positions loose depth depth (blockContents body span)
      (blockContents body' span') :=
  relates_inFrame _ _ (relates_stmts body (depth + 1) hbody)

theorem relates_block {body body' : List Stmt} (span span' : Span)
    (hbody : List.Forall₂ (Stmt.Matches positions loose) body body') :
    Relates positions loose depth depth (block body span) (block body' span') := by
  exact (relates_blockContents span span' hbody).bind_pure _

/-! Definitions and programs. -/

theorem parameterNames_eq {parameters parameters' : List Parameter}
    (hparameters : List.Forall₂ (Parameter.Matches positions) parameters parameters') :
    parameterNames parameters = parameterNames parameters' := by
  induction hparameters with
  | nil => rfl
  | cons hfirst _ ih => exact congrArg₂ List.cons hfirst.1 ih

theorem relates_forwardFunction (name : String) {parameters parameters' : List Parameter}
    {span span' : Span}
    (hparameters : List.Forall₂ (Parameter.Matches positions) parameters parameters')
    (hstart : positions span.start span'.start) :
    Relates positions loose depth depth (forwardFunction name parameters span)
      (forwardFunction name parameters' span') := by
  unfold forwardFunction
  rw [hparameters.length_eq, parameterNames_eq hparameters]
  exact (relates_register _ hstart).bind_pure _

theorem relates_function (name : String) {parameters parameters' : List Parameter}
    {body body' : List Stmt} (bodySpan bodySpan' : Span) {span span' : Span}
    (hparameters : List.Forall₂ (Parameter.Matches positions) parameters parameters')
    (hbody : List.Forall₂ (Stmt.Matches positions loose) body body')
    (hstart : positions span.start span'.start) :
    Relates positions loose depth depth (function name parameters body bodySpan span)
      (function name parameters' body' bodySpan' span') := by
  unfold function
  rw [hparameters.length_eq, parameterNames_eq hparameters]
  apply (relates_register _ hstart).bind
  intro _ _ _
  apply (relates_declareParameters hparameters).bind
  intro _ _ _
  apply (relates_withBody .function (relates_block bodySpan bodySpan' hbody)).bind
  intro found _ hfound
  subst hfound
  exact (relates_exit span.stop span'.stop).bind_pure _

theorem relates_entryPoint {body body' : List Stmt} (bodySpan bodySpan' : Span)
    {span span' : Span} (hbody : List.Forall₂ (Stmt.Matches positions loose) body body')
    (hstart : positions span.start span'.start) :
    Relates positions loose depth depth (entryPoint body bodySpan span)
      (entryPoint body' bodySpan' span') := by
  apply (relates_register _ hstart).bind
  intro _ _ _
  exact (relates_withBody .function (relates_block bodySpan bodySpan' hbody)).bind_pure _

theorem relates_forwardCoroutine (name : String) {parameters parameters' : List Parameter}
    {span span' : Span}
    (hparameters : List.Forall₂ (Parameter.Matches positions) parameters parameters')
    (hstart : positions span.start span'.start) :
    Relates positions loose depth depth (forwardCoroutine name parameters span)
      (forwardCoroutine name parameters' span') := by
  unfold forwardCoroutine
  rw [hparameters.length_eq]
  exact (relates_register _ hstart).bind_pure _

theorem find?_matches (name : String) {parameters parameters' : List Parameter}
    (hparameters : List.Forall₂ (Parameter.Matches positions) parameters parameters') :
    Option.Rel (Parameter.Matches positions)
      (parameters.find? fun parameter => parameter.name == name)
      (parameters'.find? fun parameter => parameter.name == name) := by
  induction hparameters with
  | nil => exact .none
  | cons hfirst _ ih =>
      rw [List.find?_cons, List.find?_cons, hfirst.1]
      split
      · exact .some hfirst
      · exact ih

theorem hiddenByState?_matches (names : Names) {parameters parameters' : List Parameter}
    {span span' : Span}
    (hparameters : List.Forall₂ (Parameter.Matches positions) parameters parameters')
    (hstart : positions span.start span'.start) :
    Option.Rel positions (hiddenByState? names parameters span)
      (hiddenByState? names parameters' span') := by
  have hfind := find?_matches Cpp.stateField hparameters
  unfold hiddenByState?
  revert hfind
  generalize (parameters.find? fun parameter => parameter.name == Cpp.stateField) = found
  generalize (parameters'.find? fun parameter => parameter.name == Cpp.stateField) = found'
  intro hfind
  cases hfind with
  | some hparameter => exact .some hparameter.2
  | none =>
      dsimp only
      split
      · exact .some hstart
      · exact .none

theorem relates_coroutine (name : String) {parameters parameters' : List Parameter}
    {body body' : List Stmt} (bodySpan bodySpan' : Span) {span span' : Span}
    (hparameters : List.Forall₂ (Parameter.Matches positions) parameters parameters')
    (hbody : List.Forall₂ (Stmt.Matches positions loose) body body')
    (hstart : positions span.start span'.start) :
    Relates positions loose depth depth (coroutine name parameters body bodySpan span)
      (coroutine name parameters' body' bodySpan' span') := by
  unfold coroutine
  rw [hparameters.length_eq, parameterNames_eq hparameters]
  apply (relates_register _ hstart).bind
  intro _ _ _
  apply relates_get.bind
  intro state _ hstate
  subst hstate
  have hhidden := hiddenByState?_matches state.names hparameters hstart
  revert hhidden
  generalize hiddenByState? state.names parameters span = hidden
  generalize hiddenByState? state.names parameters' span' = hidden'
  intro hhidden
  cases hhidden with
  | some hposition => exact .fail ⟨rfl, trivial, hposition⟩
  | none =>
      apply (relates_declareParameters hparameters).bind
      intro _ _ _
      apply (relates_withBody _ (relates_blockContents bodySpan bodySpan' hbody)).bind
      intro found _ hfound
      subst hfound
      exact (relates_exit span.stop span'.stop).bind_pure _

theorem relates_global (name : String) {value value' : Expr} {span span' : Span}
    (hvalue : value.Matches positions value') (hstart : positions span.start span'.start) :
    Relates positions loose depth depth (global name value span) (global name value' span') := by
  apply (relates_expr hvalue).bind
  intro text _ htext
  subst htext
  exact (relates_declare name hstart).bind_pure _

theorem item_of_no_definition {tree : Stmt}
    (htree : tree.defined? = none ∧ tree.declaration? = none) :
    item tree = Action.fail ⟨.malformedTree "top-level definition", tree.span.start⟩ := by
  obtain ⟨hdefined, hdeclaration⟩ := htree
  cases tree with
  | block | expression | ifThen | ifElse | returns | yields | print => rfl
  | define => cases hdefined
  | forwardFunction | function | forwardCoroutine | coroutine | entryPoint =>
      cases hdeclaration

theorem relates_item {left right : Stmt} (hmatches : left.MatchesItem positions loose right) :
    Relates positions loose depth depth (item left) (item right) := by
  cases hmatches with
  | define hvalue hstart => exact relates_global _ hvalue hstart
  | forwardFunction hparameters hstart => exact relates_forwardFunction _ hparameters hstart
  | function hparameters hbody hstart => exact relates_function _ _ _ hparameters hbody hstart
  | forwardCoroutine hparameters hstart => exact relates_forwardCoroutine _ hparameters hstart
  | coroutine hparameters hbody hstart =>
      exact relates_coroutine _ _ _ hparameters hbody hstart
  | entryPoint hbody hstart => exact relates_entryPoint _ _ hbody hstart
  | misplaced hloose hleft hright hstart =>
      rw [item_of_no_definition hleft, item_of_no_definition hright]
      exact .fail ⟨rfl, hloose, hstart⟩

theorem relates_items {left right : List Stmt}
    (hmatches : List.Forall₂ (Stmt.MatchesItem positions loose) left right) :
    Relates positions loose depth depth (items left) (items right) := by
  induction hmatches with
  | nil => exact .pure rfl
  | cons hfirst _ ih =>
      apply (relates_item hfirst).bind
      intro text _ htext
      apply ih.bind
      intro texts _ htexts
      subst htext htexts
      exact .pure rfl

theorem relates_unit {left right : Program} (hmatches : left.Matches positions loose right) :
    Relates positions loose depth depth (unit left) (unit right) := by
  apply (relates_items hmatches.items).bind
  intro texts _ htexts
  apply relates_get.bind
  intro state _ hstate
  subst htexts hstate
  split
  · exact .pure rfl
  · exact .fail ⟨rfl, trivial, hmatches.stop⟩

end Coroscript.Emit

namespace Coroscript

theorem Program.agree_compile {positions : Position → Position → Prop} {loose : Prop}
    {left right : Program} (hmatches : left.Matches positions loose right) :
    Agree Eq (Error.Matches positions loose) left.compile right.compile :=
  (Emit.relates_unit hmatches .initial .initial ⟨rfl, rfl⟩).1

end Coroscript
