import Coroscript.Emit.Item
import Coroscript.Proofs.Coroutine.Code

namespace Coroscript

namespace Cpp

/-- Two lists of texts that are the same lines, divided differently. -/
structure SameLines (left right : List String) : Prop where
  nil_iff : left = [] ↔ right = []
  joined : "\n".intercalate left = "\n".intercalate right

namespace SameLines

theorem refl (texts : List String) : SameLines texts texts :=
  ⟨Iff.rfl, rfl⟩

theorem append {left right left' right' : List String} (hleft : SameLines left left')
    (hright : SameLines right right') : SameLines (left ++ right) (left' ++ right') := by
  refine ⟨by simp [hleft.nil_iff, hright.nil_iff], ?_⟩
  by_cases hnil : left = []
  · rw [hnil, hleft.nil_iff.1 hnil]
    exact hright.joined
  by_cases hnil' : right = []
  · rw [hnil', hright.nil_iff.1 hnil', List.append_nil, List.append_nil]
    exact hleft.joined
  rw [String.intercalate_append_of_ne_nil hnil hnil',
    String.intercalate_append_of_ne_nil (mt hleft.nil_iff.2 hnil) (mt hright.nil_iff.2 hnil'),
    hleft.joined, hright.joined]

theorem single {text text' : String} (hsame : SameLines [text] [text']) : text = text' := by
  simpa using hsame.joined

theorem braced {left right : List String} (hsame : SameLines left right) :
    Cpp.braced left = Cpp.braced right := by
  cases left with
  | nil => rw [hsame.nil_iff.1 rfl]
  | cons first others =>
      cases right with
      | nil => exact absurd (hsame.nil_iff.2 rfl) (by simp)
      | cons first' others' => simp only [Cpp.braced, hsame.joined]

end SameLines

theorem Code.texts_append (left right : List Code) :
    texts (left ++ right) = texts left ++ texts right := by
  induction left with
  | nil => rfl
  | cons first others ih => simp [texts, ih]

end Cpp

namespace Stmt

open Cpp (Code)

/-- A block that is the whole body of a branch gives its braces to the branch. -/
def inBraces : List Code → List Code
  | [.block body] => body
  | code => code

mutual

/-- The statements for a statement in the body of a coroutine, with `index` yields
before it in the text. -/
def lower (index : Nat) : Stmt → List Code
  | .block body _ => [.block (lowerAll index body)]
  | .expression value _ => [.evaluate value]
  | .define name value _ => [.assign name value]
  | .ifThen condition thenBody _ => [.ifThen condition (inBraces (thenBody.lower index))]
  | .ifElse condition thenBody elseBody _ =>
      [.ifElse condition (inBraces (thenBody.lower index))
        (inBraces (elseBody.lower (index + thenBody.yieldCount)))]
  | .yields value _ => [.count, .give value, .label (Cpp.resumeLabel index)]
  | .print arguments _ => [.print arguments]
  | .returns _ _ | .forwardFunction _ _ _ | .function _ _ _ _ _ | .forwardCoroutine _ _ _
  | .coroutine _ _ _ _ _ | .entryPoint _ _ _ _ => []

def lowerAll (index : Nat) : List Stmt → List Code
  | [] => []
  | first :: others => first.lower index ++ lowerAll (index + first.yieldCount) others

end

def jumps (count : Nat) : List (Nat × String) :=
  (0, Cpp.startLabel) ::
    (List.range (count - 1)).map fun index => (index + 1, Cpp.resumeLabel index)

/-- The method `next` of the class for a coroutine. -/
def method (body : List Stmt) : List Code :=
  [.switch (jumps (yieldCountAll body)), .label Cpp.startLabel] ++ lowerAll 0 body ++ [.fault]

end Stmt

namespace Emit

open Emitter Cpp

variable {state after : State} {lowering : Lowering}

theorem get_bind {α : Type} (next : State → Emitter α) (state : State) :
    (Action.get >>= next) state = next state state :=
  rfl

theorem of_bind_expr {α : Type} {value : Expr} {next : String → Emitter α} {a : α}
    (hrun : (read (fun names => expr names value) >>= next) state = (.ok a, after)) :
    next (exprText value) state = (.ok a, after) := by
  obtain ⟨text, middle, hread, hnext⟩ := Action.bind_eq_ok_iff.1 hrun
  obtain ⟨htext, rfl⟩ := Prod.mk.inj hread
  rwa [((expr_eq_ok_iff value).1 htext).2] at hnext

theorem of_bind_pure {α β : Type} {step : Emitter α} {wrap : α → β} {b : β}
    (hrun : (step >>= fun a => pure (wrap a)) state = (.ok b, after)) :
    ∃ a, step state = (.ok a, after) ∧ b = wrap a := by
  obtain ⟨a, middle, hstep, hwrap⟩ := Action.bind_eq_ok_iff.1 hrun
  obtain ⟨rfl, rfl⟩ := Action.pure_eq_ok_iff.1 hwrap
  exact ⟨a, hstep, rfl⟩

theorem of_inFrame {α : Type} {stop : Position} {run : Emitter α} {a : α}
    (hframe : inFrame stop run state = (.ok a, after)) :
    ∃ middle, run { state with names := state.names.enter } = (.ok a, middle) ∧
      after.body = middle.body := by
  obtain ⟨b, middle, hrun, hexit⟩ := Action.bind_eq_ok_iff.1 (show
    (run >>= fun a => exit stop >>= fun _ => pure a) { state with names := state.names.enter } =
      (.ok a, after) from hframe)
  obtain ⟨_, hleave, rfl⟩ := of_bind_pure hexit
  obtain ⟨names, _, rfl⟩ := runs_update.1 ⟨_, hleave⟩
  exact ⟨middle, hrun, rfl⟩

def Lowers (tree : Stmt) : Prop :=
  ∀ {state after : State} {lowering : Lowering} {text : String},
    state.body = .coroutine lowering → stmt tree state = (.ok text, after) →
    SameLines [text] (Code.texts (tree.lower lowering.yieldCount)) ∧
      after.body = .coroutine { lowering with yieldCount := lowering.yieldCount + tree.yieldCount }

theorem lowers_define (name : String) (value : Expr) (span : Span) :
    Lowers (.define name value span) := by
  intro state after lowering text hbody hrun
  have hinside : state.inCoroutine = true := by
    rw [State.inCoroutine, hbody]
  have hbranch := of_bind_expr hrun
  rw [get_bind] at hbranch
  by_cases hdeclared : state.names.scopes.isDeclared name = true
  · rw [if_pos hdeclared] at hbranch
    obtain ⟨rfl, rfl⟩ := Action.pure_eq_ok_iff.1 hbranch
    exact ⟨.refl _, hbody⟩
  · rw [if_neg hdeclared, if_pos hinside] at hbranch
    exact absurd ⟨_, hbranch⟩ not_runs_fail

theorem lowers_returns (value? : Option Expr) (span : Span) : Lowers (.returns value? span) := by
  intro state after lowering text hbody hrun
  have hinside : state.inCoroutine = true := by
    rw [State.inCoroutine, hbody]
  unfold stmt returns at hrun
  rw [get_bind, if_pos hinside] at hrun
  exact absurd ⟨_, hrun⟩ not_runs_fail

theorem sameLines_yieldText (lowering : Lowering) (value : Expr) :
    SameLines [lowering.yieldText (exprText value)]
      (Code.texts [.count, .give value, .label (resumeLabel lowering.yieldCount)]) := by
  refine ⟨by simp [Code.texts], ?_⟩
  simp only [Code.texts, Code.text, String.intercalate_cons_cons, String.intercalate_singleton]
  apply String.toList_inj.1
  simp [Lowering.yieldText, List.append_assoc]

theorem lowers_yields (value : Expr) (span : Span) : Lowers (.yields value span) := by
  intro state after lowering text hbody hrun
  rw [stmt, yields, get_bind] at hrun
  simp only [hbody] at hrun
  obtain ⟨_, hset, rfl⟩ := of_bind_pure (of_bind_expr hrun)
  obtain ⟨_, rfl⟩ := Prod.mk.inj hset
  exact ⟨sameLines_yieldText lowering value, rfl⟩

theorem streamOperands_eq_ok {names : Names} {arguments : List Expr} {texts : List String}
    (htexts : arguments.mapM (streamOperand names) = .ok texts) :
    texts = arguments.map streamText := by
  induction arguments generalizing texts with
  | nil => exact (Except.ok.inj htexts).symm
  | cons first others ih =>
      rw [List.mapM_cons, bind_eq_ok_iff] at htexts
      obtain ⟨text, hfirst, hrest⟩ := htexts
      obtain ⟨shown, hshown, hoperand⟩ := bind_eq_ok_iff.1 hfirst
      obtain ⟨later, hothers, hcons⟩ := bind_eq_ok_iff.1 hrest
      rw [← Except.ok.inj hcons, ← Except.ok.inj hoperand, ih hothers,
        ((expr_eq_ok_iff first).1 hshown).2]
      rfl

theorem lowers_print (arguments : List Expr) (span : Span) : Lowers (.print arguments span) := by
  intro state after lowering text hbody hrun
  obtain ⟨texts, hread, rfl⟩ := of_bind_pure hrun
  obtain ⟨htexts, rfl⟩ := Prod.mk.inj hread
  rw [streamOperands_eq_ok htexts]
  exact ⟨.refl _, hbody⟩

theorem inBraces_lower {tree : Stmt} (hblock : ∀ inner span, tree ≠ .block inner span)
    (index : Nat) : Stmt.inBraces (tree.lower index) = tree.lower index := by
  cases tree with
  | block inner span => exact absurd rfl (hblock inner span)
  | _ => rfl

theorem of_branch {tree : Stmt} (htree : Lowers tree) {text : String}
    (hbody : state.body = .coroutine lowering)
    (hrun : branch tree (stmt tree) state = (.ok text, after)) :
    text = braced (Code.texts (Stmt.inBraces (tree.lower lowering.yieldCount))) ∧
      after.body =
        .coroutine { lowering with yieldCount := lowering.yieldCount + tree.yieldCount } := by
  by_cases hblock : ∃ inner span, tree = .block inner span
  · obtain ⟨inner, span, rfl⟩ := hblock
    obtain ⟨hsame, hafter⟩ := htree hbody hrun
    exact ⟨hsame.single, hafter⟩
  · rw [branch_of_not_block hblock] at hrun
    obtain ⟨inside, hframe, rfl⟩ := of_bind_pure hrun
    obtain ⟨middle, hinside, hafter⟩ := of_inFrame hframe
    obtain ⟨hsame, hmiddle⟩ := @htree { state with names := state.names.enter } _ _ _ hbody hinside
    rw [inBraces_lower (fun inner span heq => hblock ⟨inner, span, heq⟩), ← hsame.braced]
    exact ⟨rfl, hafter.trans hmiddle⟩

mutual

theorem lowers_stmt : ∀ (tree : Stmt), Lowers tree
  | .expression value span, state, after, lowering, text, hbody, hrun => by
      have htext := of_bind_expr hrun
      obtain ⟨rfl, rfl⟩ := Action.pure_eq_ok_iff.1 htext
      exact ⟨.refl _, hbody⟩
  | .block body span, state, after, lowering, text, hbody, hrun => by
      obtain ⟨texts, hframe, rfl⟩ := of_bind_pure hrun
      obtain ⟨middle, hinside, hafter⟩ := of_inFrame hframe
      obtain ⟨hsame, hmiddle⟩ :=
        @lowers_stmts body { state with names := state.names.enter } _ _ _ hbody hinside
      refine ⟨?_, hafter.trans hmiddle⟩
      rw [hsame.braced]
      exact .refl _
  | .define name value span, _, _, _, _, hbody, hrun =>
      lowers_define name value span hbody hrun
  | .ifThen condition thenBody span, state, after, lowering, text, hbody, hrun => by
      obtain ⟨thenText, hthen, rfl⟩ := of_bind_pure (of_bind_expr hrun)
      obtain ⟨rfl, hafter⟩ := of_branch (lowers_stmt thenBody) hbody hthen
      exact ⟨.refl _, hafter⟩
  | .ifElse condition thenBody elseBody span, state, after, lowering, text, hbody, hrun => by
      obtain ⟨thenText, middle, hthen, hrest⟩ := Action.bind_eq_ok_iff.1 (of_bind_expr hrun)
      obtain ⟨rfl, hmiddle⟩ := of_branch (lowers_stmt thenBody) hbody hthen
      obtain ⟨elseText, helse, rfl⟩ := of_bind_pure hrest
      obtain ⟨rfl, hafter⟩ := of_branch (lowers_stmt elseBody) hmiddle helse
      refine ⟨.refl _, hafter.trans ?_⟩
      rw [Stmt.yieldCount, Nat.add_assoc]
  | .returns value? span, _, _, _, _, hbody, hrun => lowers_returns value? span hbody hrun
  | .yields value span, _, _, _, _, hbody, hrun => lowers_yields value span hbody hrun
  | .print arguments span, _, _, _, _, hbody, hrun => lowers_print arguments span hbody hrun
  | .forwardFunction _ _ _, _, _, _, _, _, hrun | .function _ _ _ _ _, _, _, _, _, _, hrun
  | .forwardCoroutine _ _ _, _, _, _, _, _, hrun | .coroutine _ _ _ _ _, _, _, _, _, _, hrun
  | .entryPoint _ _ _ _, _, _, _, _, _, hrun => absurd ⟨_, hrun⟩ not_runs_fail

theorem lowers_stmts : ∀ (trees : List Stmt) {state after : State} {lowering : Lowering}
    {texts : List String}, state.body = .coroutine lowering →
    stmts trees state = (.ok texts, after) →
    SameLines texts (Code.texts (Stmt.lowerAll lowering.yieldCount trees)) ∧
      after.body = .coroutine
        { lowering with yieldCount := lowering.yieldCount + Stmt.yieldCountAll trees }
  | [], state, after, lowering, texts, hbody, hrun => by
      obtain ⟨rfl, rfl⟩ := Action.pure_eq_ok_iff.1 hrun
      exact ⟨.refl _, hbody⟩
  | first :: others, state, after, lowering, texts, hbody, hrun => by
      obtain ⟨text, middle, hfirst, hrest⟩ := Action.bind_eq_ok_iff.1 hrun
      obtain ⟨later, hothers, rfl⟩ := of_bind_pure hrest
      obtain ⟨hsame, hmiddle⟩ := lowers_stmt first hbody hfirst
      obtain ⟨hlater, hafter⟩ := lowers_stmts others hmiddle hothers
      refine ⟨?_, hafter.trans ?_⟩
      · rw [Stmt.lowerAll, Code.texts_append]
        exact hsame.append hlater
      · rw [Stmt.yieldCountAll, Nat.add_assoc]

end

theorem text_switch (count : Nat) :
    (Code.switch (Stmt.jumps count)).text = dispatch count := by
  have hzero : "case " ++ Nat.repr 0 ++ ": goto " = "case 0: goto " := by decide
  simp [Code.text, Stmt.jumps, dispatch, dispatchCases, Code.caseText, Function.comp_def, hzero]

theorem nextMethod_eq {body : List Stmt} {texts : List String} {name : String}
    {parameters : List String} {parameterCount : Nat}
    (hsame : SameLines texts (Code.texts (Stmt.lowerAll 0 body))) :
    (Resumable.mk name parameters ⟨parameterCount, Stmt.yieldCountAll body⟩ texts).nextMethod =
      "auto next() " ++ braced (Code.texts (Stmt.method body)) := by
  have hmethod : Code.texts (Stmt.method body) =
      [dispatch (Stmt.yieldCountAll body), startLabel ++ ":;"] ++
        Code.texts (Stmt.lowerAll 0 body) ++ [exhausted] := by
    simp only [Stmt.method, Code.texts_append, Code.texts, text_switch]
    rfl
  rw [Resumable.nextMethod, hmethod]
  exact congrArg ("auto next() " ++ ·) (((SameLines.refl _).append hsame).append (.refl _)).braced

theorem of_withBody {α : Type} {kind finished : Body} {run : Emitter α} {a : α}
    (hrun : withBody kind run state = (.ok (a, finished), after)) :
    ∃ middle, run { state with body := kind } = (.ok a, middle) ∧ finished = middle.body := by
  unfold withBody at hrun
  cases hinside : run { state with body := kind } with
  | mk outcome middle =>
      rw [hinside] at hrun
      cases outcome with
      | error error => cases congrArg Prod.fst hrun
      | ok b =>
          obtain ⟨hresult, _⟩ := Prod.mk.inj hrun
          obtain ⟨rfl, rfl⟩ := Prod.mk.inj (Except.ok.inj hresult)
          exact ⟨middle, rfl, rfl⟩

section Coroutine

variable {name text : String} {parameters : List Parameter} {body : List Stmt}
  {bodySpan span : Span}

theorem of_coroutine
    (hrun : coroutine name parameters body bodySpan span state = (.ok text, after)) :
    ∃ registered declared left texts,
      register ⟨name, parameters.length, .coroutine, true⟩ span.start state =
        (.ok (), registered) ∧
      hiddenByState? registered.names parameters span = none ∧
      declareParameters parameters registered = (.ok (), declared) ∧
      blockContents body bodySpan
        { declared with body := .coroutine (.start parameters.length) } = (.ok texts, left) ∧
      ∀ lowering, left.body = .coroutine lowering →
        text = (Resumable.mk name (parameterNames parameters) lowering texts).render := by
  obtain ⟨_, registered, hregister, hrest⟩ := Action.bind_eq_ok_iff.1 hrun
  rw [get_bind] at hrest
  cases hhidden : hiddenByState? registered.names parameters span with
  | some position =>
      simp only [hhidden] at hrest
      exact absurd ⟨_, hrest⟩ not_runs_fail
  | none =>
      simp only [hhidden] at hrest
      obtain ⟨_, declared, hdeclare, hrest⟩ := Action.bind_eq_ok_iff.1 hrest
      obtain ⟨⟨texts, finished⟩, _, hwith, hrest⟩ := Action.bind_eq_ok_iff.1 hrest
      obtain ⟨_, _, rfl⟩ := of_bind_pure hrest
      obtain ⟨left, hcontents, rfl⟩ := of_withBody hwith
      refine ⟨registered, declared, left, texts, hregister, hhidden, hdeclare, hcontents, ?_⟩
      intro lowering hleft
      rw [hleft]

theorem coroutine_eq_ok
    (hrun : coroutine name parameters body bodySpan span state = (.ok text, after)) :
    ∃ emitted : Resumable, text = emitted.render ∧
      emitted.nextMethod = "auto next() " ++ braced (Code.texts (Stmt.method body)) := by
  obtain ⟨_, _, left, texts, _, _, _, hcontents, htext⟩ := of_coroutine hrun
  obtain ⟨inside, hstmts, hleft⟩ := of_inFrame hcontents
  -- The labels are numbered from zero, and the class is told how many there are.
  obtain ⟨hsame, hinside⟩ := lowers_stmts body rfl hstmts
  refine ⟨_, htext _ (hleft.trans hinside), ?_⟩
  simp only [Lowering.start, Nat.zero_add]
  exact nextMethod_eq hsame

end Coroutine

end Emit

end Coroscript
