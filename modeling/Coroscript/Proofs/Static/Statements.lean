import Coroscript.Emit.Stmt
import Coroscript.Proofs.Static.Rules

namespace Coroscript

namespace Names

/-- The names after a definition: a name that is in use is assigned to. -/
def introduce (names : Names) : Option String → Names
  | none => names
  | some name =>
      if names.scopes.isDeclared name then names
      else { names with scopes := names.scopes.insert name }

theorem introduce_of_declared {names : Names} {name : String}
    (hname : names.scopes.isDeclared name = true) : names.introduce (some name) = names :=
  if_pos hname

theorem introduce_of_new {names : Names} {name : String}
    (hname : ¬ names.scopes.isDeclared name = true) :
    names.introduce (some name) = { names with scopes := names.scopes.insert name } :=
  if_neg hname

/-- `inner` differs from `outer` by one frame, opened last. -/
def Within (outer inner : Names) : Prop :=
  ∃ frame, inner = { outer with scopes.inner := frame :: outer.scopes.inner }

theorem within_enter (names : Names) : names.Within names.enter :=
  ⟨[], rfl⟩

theorem Within.insert {outer inner : Names} (hwithin : outer.Within inner) (name : String) :
    outer.Within { inner with scopes := inner.scopes.insert name } := by
  obtain ⟨frame, rfl⟩ := hwithin
  exact ⟨name :: frame, rfl⟩

theorem Within.introduce {outer inner : Names} (hwithin : outer.Within inner)
    (name? : Option String) : outer.Within (inner.introduce name?) := by
  cases name? with
  | none => exact hwithin
  | some name =>
      by_cases hname : inner.scopes.isDeclared name = true
      · rw [introduce_of_declared hname]
        exact hwithin
      · rw [introduce_of_new hname]
        exact hwithin.insert name

theorem Within.exit {outer inner : Names} (hwithin : outer.Within inner) (stop : Position) :
    inner.exit stop = .ok outer := by
  obtain ⟨frame, rfl⟩ := hwithin
  rfl

theorem isDeclared_introduce (names : Names) (name? : Option String) (other : String) :
    (names.introduce name?).scopes.isDeclared other = true ↔
      other ∈ name? ∨ names.scopes.isDeclared other = true := by
  cases name? with
  | none => simp [introduce]
  | some name =>
      by_cases hname : names.scopes.isDeclared name = true
      · rw [introduce_of_declared hname, Option.mem_some_iff, iff_or_self]
        intro hother
        exact hother ▸ hname
      · rw [introduce_of_new hname, Scopes.isDeclared_insert, Bool.or_eq_true,
          decide_eq_true_iff, Option.mem_some_iff, eq_comm]

@[simp] theorem callables_introduce (names : Names) (name? : Option String) :
    (names.introduce name?).callables = names.callables := by
  cases name? with
  | none => rfl
  | some name =>
      by_cases hname : names.scopes.isDeclared name = true
      · rw [introduce_of_declared hname]
      · rw [introduce_of_new hname]

end Names

namespace Stmt

mutual

def yieldCount : Stmt → Nat
  | .block body _ => yieldCountAll body
  | .ifThen _ thenBody _ => thenBody.yieldCount
  | .ifElse _ thenBody elseBody _ => thenBody.yieldCount + elseBody.yieldCount
  | .yields _ _ => 1
  | .expression _ _ | .define _ _ _ | .returns _ _ | .print _ _ | .forwardFunction _ _ _
  | .function _ _ _ _ _ | .forwardCoroutine _ _ _ | .coroutine _ _ _ _ _
  | .entryPoint _ _ _ _ => 0

def yieldCountAll : List Stmt → Nat
  | [] => 0
  | first :: others => first.yieldCount + yieldCountAll others

end

end Stmt

namespace Emit

open Emitter

section

variable {α β : Type} {state after : State}

/-- A step succeeds. Which text it gives does not matter. -/
def Runs (step : Emitter α) (state after : State) : Prop :=
  ∃ a, step state = (.ok a, after)

theorem runs_pure {a : α} : Runs (pure a) state after ↔ after = state := by
  constructor
  · rintro ⟨b, hstep⟩
    exact (congrArg Prod.snd hstep).symm
  · rintro rfl
    exact ⟨a, rfl⟩

theorem not_runs_fail {error : Error} : ¬ Runs (Action.fail error : Emitter α) state after := by
  rintro ⟨a, hstep⟩
  cases congrArg Prod.fst hstep

theorem runs_get {next : State → Emitter β} :
    Runs (Action.get >>= next) state after ↔ Runs (next state) state after :=
  Iff.rfl

theorem runs_bind {step : Emitter α} {next : α → Emitter β} {rest : State → Prop}
    (hnext : ∀ a middle, Runs (next a) middle after ↔ rest middle) :
    Runs (step >>= next) state after ↔ ∃ middle, Runs step state middle ∧ rest middle := by
  constructor
  · rintro ⟨b, hbind⟩
    obtain ⟨a, middle, hstep, hrest⟩ := Action.bind_eq_ok_iff.1 hbind
    exact ⟨middle, ⟨a, hstep⟩, (hnext a middle).1 ⟨b, hrest⟩⟩
  · rintro ⟨middle, ⟨a, hstep⟩, hrest⟩
    obtain ⟨b, hb⟩ := (hnext a middle).2 hrest
    exact ⟨b, Action.bind_eq_ok_iff.2 ⟨a, middle, hstep, hb⟩⟩

theorem runs_bind_pure {step : Emitter α} {wrap : α → β} :
    Runs (step >>= fun a => pure (wrap a)) state after ↔ Runs step state after := by
  rw [runs_bind fun a middle => runs_pure]
  constructor
  · rintro ⟨middle, hstep, rfl⟩
    exact hstep
  · intro hstep
    exact ⟨after, hstep, rfl⟩

theorem runs_bind_of {step : Emitter α} {next : α → Emitter β} {first second : Prop}
    {middle : State} (hstep : ∀ other, Runs step state other ↔ first ∧ other = middle)
    (hnext : ∀ a, Runs (next a) middle after ↔ second) :
    Runs (step >>= next) state after ↔ first ∧ second := by
  constructor
  · rintro ⟨b, hbind⟩
    obtain ⟨a, other, hother, hrest⟩ := Action.bind_eq_ok_iff.1 hbind
    obtain ⟨hfirst, rfl⟩ := (hstep other).1 ⟨a, hother⟩
    exact ⟨hfirst, (hnext a).1 ⟨b, hrest⟩⟩
  · rintro ⟨hfirst, hsecond⟩
    obtain ⟨a, ha⟩ := (hstep middle).2 ⟨hfirst, rfl⟩
    obtain ⟨b, hb⟩ := (hnext a).2 hsecond
    exact ⟨b, Action.bind_eq_ok_iff.2 ⟨a, middle, ha, hb⟩⟩

theorem runs_read {view : Names → Except Error α} :
    Runs (read view) state after ↔ (∃ a, view state.names = .ok a) ∧ after = state := by
  constructor
  · rintro ⟨a, hread⟩
    exact ⟨⟨a, congrArg Prod.fst hread⟩, (congrArg Prod.snd hread).symm⟩
  · rintro ⟨⟨a, hview⟩, rfl⟩
    exact ⟨a, congrArg (·, after) hview⟩

theorem runs_update {change : Names → Except Error Names} :
    Runs (update change) state after ↔
      ∃ names, change state.names = .ok names ∧ after = { state with names } := by
  cases hchange : change state.names with
  | error error => simp [Runs, update, hchange]
  | ok names => simp [Runs, update, hchange, eq_comm]

theorem runs_bind_enter {next : Unit → Emitter β} :
    Runs (enter >>= next) state after ↔
      Runs (next ()) { state with names := state.names.enter } after :=
  Iff.rfl

theorem runs_declare {name : String} {position : Position} :
    Runs (declare name position) state after ↔
      ¬ state.names.isTaken name = true ∧
        after = { state with names.scopes := state.names.scopes.insert name } := by
  rw [declare, runs_update, Names.declare]
  by_cases htaken : state.names.isTaken name = true
  · simp [htaken]
  · simp [htaken]

theorem runs_inFrame {run : Emitter α} {stop : Position} {legal : Prop} {middle : State}
    (hrun : ∀ other, Runs run { state with names := state.names.enter } other ↔
      legal ∧ other = middle)
    (hwithin : state.names.Within middle.names) :
    Runs (inFrame stop run) state after ↔ legal ∧ after = { middle with names := state.names } := by
  have hexit : ∀ a, Runs (exit stop >>= fun _ => pure a : Emitter α) middle after ↔
      after = { middle with names := state.names } := by
    intro a
    rw [runs_bind_pure, exit, runs_update, hwithin.exit]
    simp
  rw [inFrame, runs_bind_enter]
  exact runs_bind_of hrun hexit

end

def Body.advance : Body → Nat → Body
  | .coroutine lowering, count =>
      .coroutine { lowering with yieldCount := lowering.yieldCount + count }
  | body, _ => body

@[simp] theorem Body.advance_zero (body : Body) : body.advance 0 = body := by
  cases body <;> rfl

theorem Body.advance_advance (body : Body) (first second : Nat) :
    (body.advance first).advance second = body.advance (first + second) := by
  cases body with
  | topLevel => rfl
  | function => rfl
  | coroutine lowering => simp [advance, Nat.add_assoc]

namespace State

/-- The state behind a statement. What is inside a block or a branch is forgotten,
but its yields are counted. -/
def past (state : State) (tree : Stmt) : State :=
  ⟨state.names.introduce tree.defined?, state.body.advance tree.yieldCount⟩

def pastAll (state : State) (trees : List Stmt) : State :=
  trees.foldl past state

theorem body_pastAll (state : State) (trees : List Stmt) :
    (state.pastAll trees).body = state.body.advance (Stmt.yieldCountAll trees) := by
  induction trees generalizing state with
  | nil => simp [pastAll, Stmt.yieldCountAll]
  | cons first others ih =>
      rw [pastAll, List.foldl_cons, ← pastAll, ih, past, Body.advance_advance,
        Stmt.yieldCountAll]

theorem within_pastAll {outer : Names} {state : State} (hwithin : outer.Within state.names)
    (trees : List Stmt) : outer.Within (state.pastAll trees).names := by
  induction trees generalizing state with
  | nil => exact hwithin
  | cons first others ih => exact ih (hwithin.introduce first.defined?)

structure Knows (state : State) (context : Context) : Prop where
  means : ∀ reference, state.names.Resolves reference ↔ context.Means reference
  inCoroutine : state.inCoroutine = context.inCoroutine

namespace Knows

variable {state : State} {context : Context}

theorem enter (hknows : state.Knows context) :
    Knows { state with names := state.names.enter } context := by
  refine ⟨fun reference => ?_, hknows.inCoroutine⟩
  rw [← hknows.means reference]
  cases reference with
  | value name => simp [Names.Resolves, Names.enter]
  | call name count => rfl

theorem advance (hknows : state.Knows context) {count : Nat} :
    Knows { state with body := state.body.advance count } context := by
  refine ⟨hknows.means, hknows.inCoroutine ▸ ?_⟩
  cases hbody : state.body <;> simp [State.inCoroutine, Body.advance, hbody]

theorem past (hknows : state.Knows context) (tree : Stmt) :
    (state.past tree).Knows (context.declare tree.defined?) := by
  constructor
  · intro reference
    cases reference with
    | value name =>
        have hname := hknows.means (.value name)
        simp only [Names.Resolves, Context.Means] at hname
        simp [Names.Resolves, Context.Means, State.past, Names.isDeclared_introduce,
          Context.declare, hname]
    | call name count =>
        have hname := hknows.means (.call name count)
        simpa [Names.Resolves, Context.Means, State.past, Context.declare] using hname
  · exact (hknows.advance).inCoroutine

theorem covers (hknows : state.Knows context) (value : Expr) :
    (∃ text, expr state.names value = .ok text) ↔ context.Covers value := by
  simp only [expr_eq_ok_iff, exists_and_left, exists_eq, and_true, hknows.means]
  rfl

theorem isCallable (hknows : state.Knows context) (name : String) :
    state.names.callables.isRegistered name = true ↔ context.IsCallable name := by
  have hcalls := fun count => hknows.means (.call name count)
  simp only [Names.Resolves, Context.Means, Option.map_eq_some_iff] at hcalls
  rw [Callables.isRegistered, Option.isSome_iff_exists]
  constructor
  · rintro ⟨signature, hget⟩
    obtain ⟨declaration, hmem, hname, _⟩ := (hcalls _).1 ⟨signature, hget, rfl⟩
    exact ⟨declaration, hmem, hname⟩
  · rintro ⟨declaration, hmem, hname⟩
    obtain ⟨signature, hget, _⟩ := (hcalls _).2 ⟨declaration, hmem, hname, rfl⟩
    exact ⟨signature, hget⟩

theorem isDeclared (hknows : state.Knows context) (name : String) :
    state.names.scopes.isDeclared name = true ↔ name ∈ context.values :=
  hknows.means (.value name)

theorem isTaken (hknows : state.Knows context) (name : String) :
    state.names.isTaken name = true ↔ name ∈ context.values ∨ context.IsCallable name := by
  rw [Names.isTaken, Bool.or_eq_true, hknows.isDeclared, hknows.isCallable]

end Knows

end State

variable {state after : State} {context : Context}

theorem runs_expr (hknows : state.Knows context) (value : Expr) (other : State) :
    Runs (read fun names => expr names value) state other ↔
      context.Covers value ∧ other = state := by
  rw [runs_read, hknows.covers]

theorem runs_define (hknows : state.Knows context) (name : String) (value : Expr)
    (span : Span) :
    Runs (define name value span) state after ↔
      (Stmt.define name value span).Legal context ∧
        after = state.past (.define name value span) := by
  have hvalue := hknows.means (.value name)
  simp only [Names.Resolves, Context.Means] at hvalue
  rw [Stmt.Legal, and_assoc]
  refine runs_bind_of (runs_expr hknows value) fun text => runs_get.trans ?_
  rw [← hvalue, ← hknows.inCoroutine, ← hknows.isCallable]
  -- A name in view is assigned to in every body; only a new one asks where it stands.
  by_cases hdeclared : state.names.scopes.isDeclared name = true
  · rw [if_pos hdeclared, runs_pure]
    simp [hdeclared, State.past, Names.introduce, Stmt.defined?, Stmt.yieldCount]
  rw [if_neg hdeclared]
  by_cases hbody : state.inCoroutine = true
  · rw [if_pos hbody]
    simp [not_runs_fail, hdeclared, hbody]
  rw [if_neg hbody, runs_bind_pure, runs_declare]
  simp [Names.isTaken, hdeclared, hbody, State.past, Names.introduce_of_new hdeclared,
    Stmt.defined?, Stmt.yieldCount]

theorem runs_returns (hknows : state.Knows context) (value? : Option Expr) (span : Span) :
    Runs (returns value? span) state after ↔
      (Stmt.returns value? span).Legal context ∧ after = state := by
  rw [Stmt.Legal, ← hknows.inCoroutine]
  refine runs_get.trans ?_
  by_cases hbody : state.inCoroutine = true
  · rw [if_pos hbody]
    simp [not_runs_fail, hbody]
  rw [if_neg hbody]
  cases value? with
  | none => simp [runs_pure, hbody]
  | some value =>
      rw [runs_bind_pure, runs_expr hknows]
      simp [hbody]

theorem runs_yields (hknows : state.Knows context) (value : Expr) (span : Span) :
    Runs (yields value span) state after ↔
      (Stmt.yields value span).Legal context ∧
        after = { state with body := state.body.advance 1 } := by
  rw [Stmt.Legal, ← hknows.inCoroutine, State.inCoroutine, and_assoc]
  refine runs_get.trans ?_
  cases hbody : state.body with
  | topLevel => simp [not_runs_fail]
  | function => simp [not_runs_fail]
  | coroutine lowering =>
      simp only [true_and]
      refine runs_bind_of (runs_expr hknows value) fun text => ?_
      rw [runs_bind_pure]
      constructor
      · rintro ⟨_, hset⟩
        exact (congrArg Prod.snd hset).symm
      · rintro rfl
        exact ⟨(), rfl⟩

theorem mapM_eq_ok_iff {ε α β : Type} {f : α → Except ε β} (as : List α) :
    (∃ bs, as.mapM f = .ok bs) ↔ ∀ a ∈ as, ∃ b, f a = .ok b := by
  induction as with
  | nil => simp [pure, Except.pure]
  | cons first others ih =>
      rw [List.forall_mem_cons, ← ih, List.mapM_cons]
      simp only [bind_eq_ok_iff]
      constructor
      · rintro ⟨_, b, hfirst, bs, hothers, _⟩
        exact ⟨⟨b, hfirst⟩, ⟨bs, hothers⟩⟩
      · rintro ⟨⟨b, hfirst⟩, ⟨bs, hothers⟩⟩
        exact ⟨b :: bs, b, hfirst, bs, hothers, rfl⟩

theorem runs_print (hknows : state.Knows context) (arguments : List Expr) (span : Span) :
    Runs (print arguments) state after ↔
      (Stmt.print arguments span).Legal context ∧ after = state := by
  rw [Stmt.Legal, print, runs_bind_pure, runs_read, mapM_eq_ok_iff]
  refine and_congr_left fun _ => forall₂_congr fun argument _ => ?_
  rw [← hknows.covers]
  simp only [streamOperand, bind_eq_ok_iff]
  constructor
  · rintro ⟨_, text, htext, _⟩
    exact ⟨text, htext⟩
  · rintro ⟨text, htext⟩
    exact ⟨_, text, htext, rfl⟩

def Decided (tree : Stmt) : Prop :=
  ∀ {state : State} {context : Context}, state.Knows context → ∀ after,
    Runs (stmt tree) state after ↔ tree.Legal context ∧ after = state.past tree

theorem branch_of_not_block {body : Stmt} (hblock : ¬ ∃ inner span, body = .block inner span) :
    branch body (stmt body) =
      (inFrame body.span.stop (stmt body) >>= fun text => pure (Cpp.braced [text])) := by
  cases body <;> first | rfl | exact absurd ⟨_, _, rfl⟩ hblock

theorem runs_branch {body : Stmt} (hbody : Decided body) (hknows : state.Knows context)
    (other : State) :
    Runs (branch body (stmt body)) state other ↔
      body.Legal context ∧ other = { state with body := state.body.advance body.yieldCount } := by
  by_cases hblock : ∃ inner span, body = .block inner span
  · -- A block opens the frame of the branch itself.
    obtain ⟨inner, span, rfl⟩ := hblock
    exact hbody hknows other
  · rw [branch_of_not_block hblock, runs_bind_pure]
    exact runs_inFrame (hbody hknows.enter) (state.names.within_enter.introduce _)

mutual

theorem runs_stmt : ∀ (tree : Stmt), Decided tree
  | .expression value span, state, context, hknows, after => by
      rw [stmt, runs_bind_pure, runs_expr hknows]
      simp [Stmt.Legal, State.past, Names.introduce, Stmt.defined?, Stmt.yieldCount]
  | .block body span, state, context, hknows, after => by
      rw [stmt, runs_bind_pure, runs_inFrame (runs_stmts body hknows.enter)
        (State.within_pastAll state.names.within_enter body), State.body_pastAll]
      rfl
  | .define name value span, state, context, hknows, after => runs_define hknows name value span
  | .ifThen condition thenBody span, state, context, hknows, after => by
      rw [stmt, Stmt.Legal, and_assoc]
      refine runs_bind_of (runs_expr hknows condition) fun test => ?_
      rw [runs_bind_pure, runs_branch (runs_stmt thenBody) hknows]
      rfl
  | .ifElse condition thenBody elseBody span, state, context, hknows, after => by
      rw [stmt, Stmt.Legal, and_assoc, and_assoc]
      refine runs_bind_of (runs_expr hknows condition) fun test => ?_
      refine runs_bind_of (runs_branch (runs_stmt thenBody) hknows) fun thenText => ?_
      rw [runs_bind_pure, runs_branch (runs_stmt elseBody) hknows.advance, Body.advance_advance]
      rfl
  | .returns value? span, state, context, hknows, after => by
      rw [stmt, runs_returns hknows]
      simp [State.past, Names.introduce, Stmt.defined?, Stmt.yieldCount]
  | .yields value span, state, context, hknows, after => runs_yields hknows value span
  | .print arguments span, state, context, hknows, after => by
      rw [stmt, runs_print hknows arguments span]
      simp [State.past, Names.introduce, Stmt.defined?, Stmt.yieldCount]
  | .forwardFunction _ _ _, _, _, _, _ | .function _ _ _ _ _, _, _, _, _
  | .forwardCoroutine _ _ _, _, _, _, _ | .coroutine _ _ _ _ _, _, _, _, _
  | .entryPoint _ _ _ _, _, _, _, _ => by
      rw [stmt, Stmt.Legal, false_and, iff_false]
      exact not_runs_fail

theorem runs_stmts : ∀ (trees : List Stmt) {state : State} {context : Context},
    state.Knows context → ∀ after,
      Runs (stmts trees) state after ↔
        Stmt.LegalAll context trees ∧ after = state.pastAll trees
  | [], state, context, hknows, after => by
      rw [stmts, runs_pure, Stmt.LegalAll, true_and]
      rfl
  | first :: others, state, context, hknows, after => by
      rw [stmts, Stmt.LegalAll, and_assoc]
      refine runs_bind_of (runs_stmt first hknows) fun text => ?_
      rw [runs_bind_pure]
      exact runs_stmts others (hknows.past first) after

end

end Emit

end Coroscript
