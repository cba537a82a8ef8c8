import Coroscript.Proofs.Coroutine.Lowering
import Coroscript.Proofs.Cpp.Scope
import Coroscript.Proofs.Emit.Grouping
import Coroscript.Proofs.Static.Programs

namespace Coroscript

/-! The trees whose texts are emitted. -/

def Reference.variable? : Reference → Option String
  | value name => some name
  | call _ _ => none

namespace Expr

def reads (value : Expr) : List String :=
  value.references.filterMap Reference.variable?

def emitted (value : Expr) : Cpp.Expression :=
  ⟨Emit.exprText value, value.image⟩

def streamed (value : Expr) : Cpp.Expression :=
  ⟨Emit.streamText value, value.image⟩

mutual

theorem reads_image : ∀ tree : Expr, tree.image.reads = tree.reads
  | .number _ _ | .string _ _ | .symbol _ _ => rfl
  | .binary left operator right _ => by
      have hleft := reads_image left
      have hright := reads_image right
      simp only [reads] at hleft hright
      rw [image, reads, references, List.filterMap_append]
      split <;> simp [Cpp.Term.reads, Cpp.Term.readsAll, hleft, hright]
  | .unary _ operand _ => reads_image operand
  | .percent operand _ => by
      rw [image, Cpp.Term.reads, Cpp.Term.reads, List.append_nil]
      exact reads_image operand
  | .grouping inner _ => reads_image inner
  | .conversion .int value _ => reads_image value
  | .conversion .float value _ => reads_image value
  | .call _ arguments _ => reads_imageAll arguments
  | .next coroutine _ => by
      rw [image, Cpp.Term.reads, Cpp.Term.reads, Cpp.Term.readsAll, List.append_nil]
      · exact reads_image coroutine
      · intro name hname
        contradiction
  | .create _ arguments _ _ => reads_imageAll arguments

theorem reads_imageAll : ∀ trees : List Expr,
    Cpp.Term.readsAll (imageAll trees) =
      (referencesAll trees).filterMap Reference.variable?
  | [] => rfl
  | first :: others => by
      rw [imageAll, Cpp.Term.readsAll, referencesAll, List.filterMap_append,
        reads_image first, reads_imageAll others, reads]

end

end Expr

/-- The statements that stand in the braces of a branch. -/
def Cpp.Statement.contents : Cpp.Statement → List Cpp.Statement
  | .block body => body
  | other => [other]

namespace Stmt

mutual

/-- What a statement becomes where the names in `visible` are declared, and `index` yields
of the coroutine come before it. -/
def image (visible : List String) (index : Nat) : Stmt → Cpp.Statement
  | .block body _ => .block (imageAll visible index body)
  | .expression value _ => .evaluate value.emitted
  | .define name value _ =>
      if name ∈ visible then .assign name value.emitted else .declare name value.emitted
  | .ifThen condition thenBody _ =>
      .ifThen condition.emitted (thenBody.image visible index).contents
  | .ifElse condition thenBody elseBody _ =>
      .ifElse condition.emitted (thenBody.image visible index).contents
        (elseBody.image visible (index + thenBody.yieldCount)).contents
  | .returns value? _ => .leave (value?.map Expr.emitted)
  | .yields value _ => .suspend index value.emitted
  | .print arguments _ => .print (arguments.map Expr.streamed)
  | .forwardFunction _ _ _ | .function _ _ _ _ _ | .forwardCoroutine _ _ _
  | .coroutine _ _ _ _ _ | .entryPoint _ _ _ _ => .block []

def imageAll (visible : List String) (index : Nat) : List Stmt → List Cpp.Statement
  | [] => []
  | first :: others =>
      first.image visible index ::
        imageAll (first.defined?.toList ++ visible) (index + first.yieldCount) others

end

/-- What a definition becomes behind the definitions `before`. -/
def imageItem (before : List Stmt) : Stmt → Cpp.Definition
  | .define name value _ => .global name value.emitted
  | .forwardFunction name parameters _ =>
      .forwardFunction name (parameters.map Parameter.name)
  | .function name parameters body _ _ =>
      .function name (parameters.map Parameter.name)
        (imageAll (parameters.map Parameter.name ++ globals before) 0 body)
  | .forwardCoroutine name parameters _ => .forwardClass name parameters.length
  | .coroutine name parameters body _ _ =>
      .resumable name (parameters.map Parameter.name) (yieldCountAll body)
        (imageAll (parameters.map Parameter.name ++ globals before) 0 body)
  | .entryPoint _ body _ _ => .entryPoint (imageAll (globals before) 0 body)
  | .block _ _ | .expression _ _ | .ifThen _ _ _ | .ifElse _ _ _ _ | .returns _ _
  | .yields _ _ | .print _ _ => .entryPoint []

def imageItems (before : List Stmt) : List Stmt → List Cpp.Definition
  | [] => []
  | first :: others => first.imageItem before :: imageItems (before ++ [first]) others

end Stmt

def Program.image (program : Program) : List Cpp.Definition :=
  Stmt.imageItems [] program.items

namespace Emit

open Emitter Cpp

/-! Texts of statements. -/

/-- The yields of a coroutine are numbered on from `index`. -/
def Body.Counts (body : Body) (index : Nat) : Prop :=
  ∀ lowering, body = .coroutine lowering → lowering.yieldCount = index

theorem Body.Counts.advance {body : Body} {index : Nat} (hcounts : body.Counts index)
    (count : Nat) : (body.advance count).Counts (index + count) := by
  intro lowering hbody
  cases body with
  | topLevel | function => cases hbody
  | coroutine inner =>
      cases hbody
      exact congrArg (· + count) (hcounts inner rfl)

theorem Body.counts_start (parameterCount : Nat) :
    (Body.coroutine (.start parameterCount)).Counts 0 := by
  intro lowering hbody
  cases hbody
  rfl

variable {state after : State} {context : Context} {index : Nat} {text : String}

def Shows (tree : Stmt) : Prop :=
  ∀ {state after : State} {context : Context} {index : Nat} {text : String},
    state.Knows context → state.body.Counts index → stmt tree state = (.ok text, after) →
      text = (tree.image context.values index).text

theorem shows_define (name : String) (value : Expr) (span : Span) :
    Shows (.define name value span) := by
  intro state after context index text hknows _ hrun
  have hvisible := hknows.isDeclared name
  have hbranch := of_bind_expr hrun
  rw [get_bind] at hbranch
  rw [Stmt.image]
  by_cases hdeclared : state.names.scopes.isDeclared name = true
  · rw [if_pos hdeclared] at hbranch
    rw [if_pos (hvisible.1 hdeclared), Statement.text]
    exact (Action.pure_eq_ok_iff.1 hbranch).1.symm
  · rw [if_neg hdeclared] at hbranch
    rw [if_neg (mt hvisible.2 hdeclared), Statement.text]
    split at hbranch
    · exact absurd ⟨_, hbranch⟩ not_runs_fail
    · obtain ⟨_, _, rfl⟩ := of_bind_pure hbranch
      rfl

theorem shows_returns (value? : Option Expr) (span : Span) : Shows (.returns value? span) := by
  intro state after context index text _ _ hrun
  unfold stmt returns at hrun
  rw [get_bind] at hrun
  split at hrun
  · exact absurd ⟨_, hrun⟩ not_runs_fail
  · cases value? with
    | none => exact (Action.pure_eq_ok_iff.1 hrun).1.symm
    | some value =>
        have htext := @of_bind_expr _ _ _ value _ _ hrun
        exact (Action.pure_eq_ok_iff.1 htext).1.symm

theorem shows_yields (value : Expr) (span : Span) : Shows (.yields value span) := by
  intro state after context index text _ hcounts hrun
  rw [stmt, yields, get_bind] at hrun
  cases hbody : state.body with
  | topLevel | function =>
      simp only [hbody] at hrun
      exact absurd ⟨_, hrun⟩ not_runs_fail
  | coroutine lowering =>
      simp only [hbody] at hrun
      obtain ⟨_, _, rfl⟩ := of_bind_pure (of_bind_expr hrun)
      rw [Lowering.yieldText, hcounts lowering hbody]
      rfl

theorem shows_print (arguments : List Expr) (span : Span) : Shows (.print arguments span) := by
  intro state after context index text _ _ hrun
  obtain ⟨texts, hread, rfl⟩ := of_bind_pure hrun
  obtain ⟨htexts, _⟩ := Prod.mk.inj hread
  rw [streamOperands_eq_ok htexts, Stmt.image, Statement.text, List.map_map, List.map_map]
  rfl

theorem contents_image {tree : Stmt} (hblock : ¬ ∃ inner span, tree = .block inner span)
    (htree : tree.declaration? = none) (visible : List String) (index : Nat) :
    (tree.image visible index).contents = [tree.image visible index] := by
  cases tree with
  | block inner span => exact absurd ⟨inner, span, rfl⟩ hblock
  | define name value span =>
      rw [Stmt.image]
      split <;> rfl
  | expression | ifThen | ifElse | returns | yields | print => rw [Stmt.image]; rfl
  | forwardFunction | function | forwardCoroutine | coroutine | entryPoint => cases htree

theorem declaration?_of_legal {tree : Stmt} (hlegal : tree.Legal context) :
    tree.declaration? = none := by
  cases tree with
  | block | expression | define | ifThen | ifElse | returns | yields | print => rfl
  | forwardFunction | function | forwardCoroutine | coroutine | entryPoint =>
      rw [Stmt.Legal] at hlegal
      exact hlegal.elim

theorem shows_branch {tree : Stmt} (htree : Shows tree) (hknows : state.Knows context)
    (hcounts : state.body.Counts index)
    (hrun : branch tree (stmt tree) state = (.ok text, after)) :
    text = braced (Statement.texts (tree.image context.values index).contents) := by
  by_cases hblock : ∃ inner span, tree = .block inner span
  · obtain ⟨inner, span, rfl⟩ := hblock
    rw [htree hknows hcounts hrun, Stmt.image, Statement.text]
    rfl
  · rw [branch_of_not_block hblock] at hrun
    obtain ⟨inside, hframe, rfl⟩ := of_bind_pure hrun
    obtain ⟨middle, hinside, _⟩ := of_inFrame hframe
    obtain ⟨hlegal, _⟩ := (runs_stmt tree hknows.enter middle).1 ⟨_, hinside⟩
    rw [contents_image hblock (declaration?_of_legal hlegal), htree hknows.enter hcounts hinside]
    rfl

mutual

theorem shows_stmt : ∀ tree : Stmt, Shows tree
  | .expression value span, state, after, context, index, text, _, _, hrun => by
      have htext := of_bind_expr hrun
      exact (Action.pure_eq_ok_iff.1 htext).1.symm
  | .block body span, state, after, context, index, text, hknows, hcounts, hrun => by
      obtain ⟨texts, hframe, rfl⟩ := of_bind_pure hrun
      obtain ⟨middle, hinside, _⟩ := of_inFrame hframe
      rw [shows_stmts body hknows.enter hcounts hinside, Stmt.image, Statement.text]
  | .define name value span, _, _, _, _, _, hknows, hcounts, hrun =>
      shows_define name value span hknows hcounts hrun
  | .ifThen condition thenBody span, state, after, context, index, text, hknows, hcounts,
      hrun => by
      obtain ⟨thenText, hthen, rfl⟩ := of_bind_pure (of_bind_expr hrun)
      rw [shows_branch (shows_stmt thenBody) hknows hcounts hthen, Stmt.image, Statement.text]
      rfl
  | .ifElse condition thenBody elseBody span, state, after, context, index, text, hknows,
      hcounts, hrun => by
      obtain ⟨thenText, middle, hthen, hrest⟩ := Action.bind_eq_ok_iff.1 (of_bind_expr hrun)
      obtain ⟨elseText, helse, rfl⟩ := of_bind_pure hrest
      obtain ⟨_, rfl⟩ := (runs_branch (runs_stmt thenBody) hknows middle).1 ⟨_, hthen⟩
      rw [shows_branch (shows_stmt thenBody) hknows hcounts hthen,
        shows_branch (shows_stmt elseBody) hknows.advance (hcounts.advance _) helse, Stmt.image,
        Statement.text]
      rfl
  | .returns value? span, _, _, _, _, _, hknows, hcounts, hrun =>
      shows_returns value? span hknows hcounts hrun
  | .yields value span, _, _, _, _, _, hknows, hcounts, hrun =>
      shows_yields value span hknows hcounts hrun
  | .print arguments span, _, _, _, _, _, hknows, hcounts, hrun =>
      shows_print arguments span hknows hcounts hrun
  | .forwardFunction _ _ _, _, _, _, _, _, _, _, hrun
  | .function _ _ _ _ _, _, _, _, _, _, _, _, hrun
  | .forwardCoroutine _ _ _, _, _, _, _, _, _, _, hrun
  | .coroutine _ _ _ _ _, _, _, _, _, _, _, _, hrun
  | .entryPoint _ _ _ _, _, _, _, _, _, _, _, hrun => absurd ⟨_, hrun⟩ not_runs_fail

theorem shows_stmts : ∀ (trees : List Stmt) {state after : State} {context : Context}
    {index : Nat} {texts : List String}, state.Knows context → state.body.Counts index →
      stmts trees state = (.ok texts, after) →
        texts = Statement.texts (Stmt.imageAll context.values index trees)
  | [], _, _, _, _, _, _, _, hrun => (Action.pure_eq_ok_iff.1 hrun).1.symm
  | first :: others, state, after, context, index, texts, hknows, hcounts, hrun => by
      obtain ⟨text, middle, hfirst, hrest⟩ := Action.bind_eq_ok_iff.1 hrun
      obtain ⟨later, hothers, rfl⟩ := of_bind_pure hrest
      obtain ⟨_, rfl⟩ := (runs_stmt first hknows middle).1 ⟨_, hfirst⟩
      rw [shows_stmt first hknows hcounts hfirst,
        shows_stmts others (hknows.past first) (hcounts.advance _) hothers, Stmt.imageAll,
        Statement.texts]
      rfl

end

theorem shows_blockContents {trees : List Stmt} {span : Span} {texts : List String}
    (hknows : state.Knows context) (hcounts : state.body.Counts index)
    (hrun : blockContents trees span state = (.ok texts, after)) :
    texts = Statement.texts (Stmt.imageAll context.values index trees) ∧
      after.body = state.body.advance (Stmt.yieldCountAll trees) := by
  obtain ⟨middle, hinside, _⟩ := of_inFrame hrun
  obtain ⟨_, rfl⟩ := (runs_blockContents hknows trees span after).1 ⟨_, hrun⟩
  exact ⟨shows_stmts trees hknows.enter hcounts hinside, rfl⟩

theorem shows_block {trees : List Stmt} {span : Span} (hknows : state.Knows context)
    (hcounts : state.body.Counts index) (hrun : block trees span state = (.ok text, after)) :
    text = braced (Statement.texts (Stmt.imageAll context.values index trees)) := by
  obtain ⟨texts, hcontents, rfl⟩ := of_bind_pure hrun
  rw [(shows_blockContents hknows hcounts hcontents).1]

/-! Texts of definitions. -/

section Definitions

variable {before : List Stmt}

theorem State.Agrees.knows_entryPoint {parameters : List Parameter} {body : List Stmt}
    {bodySpan span : Span}
    (hagrees : state.Agrees (before ++ [.entryPoint parameters body bodySpan span])) :
    State.Knows ⟨state.names, .function⟩
      ⟨globals before, declarations (before ++ [.entryPoint parameters body bodySpan span]),
        false⟩ := by
  have hglobals := @globals_append_callable before
    (.entryPoint parameters body bodySpan span) rfl
  exact ⟨hglobals ▸ hagrees.knows.means, rfl⟩

theorem shows_function {name : String} {parameters : List Parameter} {body : List Stmt}
    {bodySpan span : Span} (hagrees : state.Agrees before)
    (hrun : function name parameters body bodySpan span state = (.ok text, after)) :
    text = (Stmt.imageItem before (.function name parameters body bodySpan span)).text := by
  obtain ⟨_, registered, hregister, hrest⟩ := Action.bind_eq_ok_iff.1 hrun
  obtain ⟨_, declared, hdeclare, hrest⟩ := Action.bind_eq_ok_iff.1 hrest
  obtain ⟨⟨bodyText, _⟩, _, hwith, hrest⟩ := Action.bind_eq_ok_iff.1 hrest
  obtain ⟨_, _, rfl⟩ := of_bind_pure hrest
  obtain ⟨_, hblock, _⟩ := of_withBody hwith
  have hregistered := @agrees_register _ _ _ _ _ hagrees
    (.function name parameters body bodySpan span) rfl ⟨(), hregister⟩
  obtain ⟨_, rfl⟩ := (runs_declareParameters parameters declared).1 ⟨(), hdeclare⟩
  have hcounts : Body.function.Counts 0 := fun lowering hbody => nomatch hbody
  rw [shows_block (hregistered.knows_body rfl parameters .function) hcounts hblock]
  rfl

theorem shows_entryPoint {parameters : List Parameter} {body : List Stmt}
    {bodySpan span : Span} (hagrees : state.Agrees before)
    (hrun : entryPoint body bodySpan span state = (.ok text, after)) :
    text = (Stmt.imageItem before (.entryPoint parameters body bodySpan span)).text := by
  obtain ⟨_, registered, hregister, hrest⟩ := Action.bind_eq_ok_iff.1 hrun
  obtain ⟨⟨bodyText, _⟩, hwith, rfl⟩ := of_bind_pure hrest
  obtain ⟨_, hblock, _⟩ := of_withBody hwith
  have hregistered := @agrees_register _ _ _ _ _ hagrees
    (.entryPoint parameters body bodySpan span) rfl ⟨(), hregister⟩
  have hcounts : Body.function.Counts 0 := fun lowering hbody => nomatch hbody
  rw [shows_block hregistered.knows_entryPoint hcounts hblock]
  rfl

theorem shows_coroutine {name : String} {parameters : List Parameter} {body : List Stmt}
    {bodySpan span : Span} (hagrees : state.Agrees before)
    (hrun : coroutine name parameters body bodySpan span state = (.ok text, after)) :
    text = (Stmt.imageItem before (.coroutine name parameters body bodySpan span)).text := by
  obtain ⟨registered, declared, left, texts, hregister, _, hdeclare, hcontents, htext⟩ :=
    of_coroutine hrun
  have hregistered := @agrees_register _ _ _ _ _ hagrees
    (.coroutine name parameters body bodySpan span) rfl ⟨(), hregister⟩
  obtain ⟨_, rfl⟩ := (runs_declareParameters parameters declared).1 ⟨(), hdeclare⟩
  have hknows := hregistered.knows_body rfl parameters (.coroutine (.start parameters.length))
  have hcounts := Body.counts_start parameters.length
  obtain ⟨rfl, hleft⟩ := shows_blockContents hknows hcounts hcontents
  rw [htext _ hleft]
  simp only [Lowering.start, Nat.zero_add, Stmt.imageItem, Definition.text, List.length_map]
  rfl

theorem shows_item {tree : Stmt} (hagrees : state.Agrees before)
    (hrun : item tree state = (.ok text, after)) : text = (tree.imageItem before).text := by
  cases tree with
  | define name value span =>
      have hdeclare := of_bind_expr hrun
      obtain ⟨_, _, rfl⟩ := of_bind_pure hdeclare
      rfl
  | forwardFunction name parameters span | forwardCoroutine name parameters span =>
      obtain ⟨_, _, rfl⟩ := of_bind_pure hrun
      rfl
  | function name parameters body bodySpan span => exact shows_function hagrees hrun
  | coroutine name parameters body bodySpan span => exact shows_coroutine hagrees hrun
  | entryPoint parameters body bodySpan span => exact shows_entryPoint hagrees hrun
  | block | expression | ifThen | ifElse | returns | yields | print =>
      exact absurd ⟨_, hrun⟩ not_runs_fail

theorem shows_items {trees : List Stmt} {texts : List String} (hagrees : state.Agrees before)
    (hrun : items trees state = (.ok texts, after)) :
    texts = (Stmt.imageItems before trees).map Definition.text := by
  induction trees generalizing state before texts with
  | nil => exact (Action.pure_eq_ok_iff.1 hrun).1.symm
  | cons first others ih =>
      obtain ⟨text, middle, hfirst, hrest⟩ := Action.bind_eq_ok_iff.1 hrun
      obtain ⟨later, hothers, rfl⟩ := of_bind_pure hrest
      have hmiddle := (item_step hagrees first).2 middle ⟨_, hfirst⟩
      rw [shows_item hagrees hfirst, ih hmiddle hothers, Stmt.imageItems, List.map_cons]

end Definitions

end Emit

end Coroscript
