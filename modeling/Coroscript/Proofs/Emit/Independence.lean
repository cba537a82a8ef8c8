import Coroscript.Proofs.Coroutine.Labels
import Coroscript.Proofs.Emit.FirstFault
import Coroscript.Proofs.Name.Agreement
import Coroscript.Proofs.Static.Programs

namespace Coroscript

/-! The emission of a definition looks only at the names that occur in it, and at the one of the
counter. In states that agree on these it has one outcome, whatever else they hold. -/

namespace Expr

theorem references_subset_referencesAll {argument : Expr} {arguments : List Expr}
    (hmem : argument ∈ arguments) : argument.references ⊆ referencesAll arguments := by
  induction arguments with
  | nil => contradiction
  | cons first others ih =>
      rw [referencesAll]
      rcases List.mem_cons.1 hmem with rfl | hmem
      · exact List.subset_append_left _ _
      · exact List.Subset.trans (ih hmem) (List.subset_append_right _ _)

theorem mentions_subset_of_mem_children {tree child : Expr} (hchild : child ∈ tree.children) :
    child.mentions ⊆ tree.mentions := by
  apply List.map_subset
  cases tree with
  | number | symbol | string => contradiction
  | unary | percent | grouping | conversion | next =>
      rw [List.mem_singleton.1 hchild]
      exact List.Subset.refl _
  | binary left operator right span =>
      simp only [children, List.mem_cons, List.not_mem_nil, or_false] at hchild
      rcases hchild with rfl | rfl
      · exact List.subset_append_left _ _
      · exact List.subset_append_right _ _
  | call callee arguments span =>
      exact List.Subset.trans (references_subset_referencesAll hchild) (List.subset_cons_self _ _)
  | create callee arguments callSpan span =>
      rw [List.mem_singleton.1 hchild]
      exact List.Subset.refl _

end Expr

namespace Stmt

/-- The names that occur in a top-level definition: its own, those of its parameters and those in
its body. -/
def vocabulary : Stmt → List String
  | forwardFunction name parameters _ | forwardCoroutine name parameters _ =>
      name :: parameters.map Parameter.name
  | function name parameters body _ _ | coroutine name parameters body _ _ =>
      name :: (parameters.map Parameter.name ++ mentionsAll body)
  | entryPoint parameters body _ _ =>
      entryName :: (parameters.map Parameter.name ++ mentionsAll body)
  | tree => tree.mentions

/-- A top-level definition of the name, as a variable or as a callable. -/
def introduces (name : String) (tree : Stmt) : Bool :=
  tree.defined? == some name || tree.declaration?.any fun declaration => declaration.name == name

end Stmt

theorem Callables.Recorded.eq_getLast? {declared : List Signature} {signature? : Option Signature}
    (hrecorded : Recorded declared signature?) : signature? = declared.getLast? := by
  cases hrecorded <;> rfl

theorem mem_globals_filter (items : List Stmt) (name : String) :
    name ∈ globals (items.filter (Stmt.introduces name)) ↔ name ∈ globals items := by
  simp only [globals, List.mem_filterMap, List.mem_filter]
  constructor
  · rintro ⟨tree, ⟨hmem, _⟩, hname⟩
    exact ⟨tree, hmem, hname⟩
  · rintro ⟨tree, hmem, hname⟩
    exact ⟨tree, ⟨hmem, by simp [Stmt.introduces, hname]⟩, hname⟩

theorem filter_declarations_filter (items : List Stmt) (name : String) :
    (declarations (items.filter (Stmt.introduces name))).filter (fun found => found.name == name) =
      (declarations items).filter (fun found => found.name == name) := by
  induction items with
  | nil => rfl
  | cons first others ih =>
      unfold declarations at ih ⊢
      by_cases hfirst : first.introduces name = true
      · rw [List.filter_cons_of_pos hfirst, List.filterMap_cons, List.filterMap_cons]
        split
        · exact ih
        · rw [List.filter_cons, List.filter_cons, ih]
      · rw [List.filter_cons_of_neg hfirst, List.filterMap_cons, ih]
        split
        · rfl
        · rename_i declaration hdeclaration
          refine (List.filter_cons_of_neg fun hname => hfirst ?_).symm
          simpa [Stmt.introduces, hdeclaration] using .inr (beq_iff_eq.1 hname)

namespace Emit

open Emitter

variable {known : List String}

/-! Expressions. -/

section Expressions

variable {names names' : Names} (hagree : names.AgreeOn known names')
include hagree

theorem fault?_eq {node : Expr} (hmentions : node.mentions ⊆ known) :
    names.fault? node = names'.fault? node := by
  cases node with
  | symbol name span =>
      rw [Names.fault?, Names.fault?, hagree.declared name (hmentions (.head _))]
  | call callee arguments span =>
      have hcallee : callee ∈ known := hmentions (.head _)
      rw [Names.fault?, Names.fault?, hagree.resolve hcallee]
  | _ => rfl

theorem expr_eq {value : Expr} (hmentions : value.mentions ⊆ known) :
    expr names value = expr names' value := by
  have hnodes : ∀ node ∈ value.nodes, node.mentions ⊆ known := by
    refine Expr.forall_mem_nodes (fun tree child htree hchild => ?_) value hmentions
    exact List.Subset.trans (Expr.mentions_subset_of_mem_children hchild) htree
  have hfaults : value.nodes.findSome? names.fault? = value.nodes.findSome? names'.fault? := by
    generalize value.nodes = nodes at hnodes
    induction nodes with
    | nil => rfl
    | cons first others ih =>
        rw [List.findSome?_cons, List.findSome?_cons, ih (List.forall_mem_cons.1 hnodes).2,
          fault?_eq hagree (hnodes first (.head _))]
  rw [expr_eq_resultOr, expr_eq_resultOr, hfaults]

theorem streamOperands_eq {arguments : List Expr}
    (hmentions : arguments.flatMap Expr.mentions ⊆ known) :
    arguments.mapM (streamOperand names) = arguments.mapM (streamOperand names') := by
  induction arguments with
  | nil => rfl
  | cons first others ih =>
      rw [List.flatMap_cons, List.append_subset] at hmentions
      rw [List.mapM_cons, List.mapM_cons, streamOperand, streamOperand,
        expr_eq hagree hmentions.1, ih hmentions.2]

theorem hiddenByState?_eq (hstate : Cpp.stateField ∈ known) (parameters : List Parameter)
    (span : Span) :
    hiddenByState? names parameters span = hiddenByState? names' parameters span := by
  unfold hiddenByState?
  rw [hagree.isTaken hstate]

end Expressions

/-! Steps. -/

structure State.Aligned (known : List String) (depth : Nat) (state state' : State) : Prop where
  body : state.body = state'.body
  names : state.names.Aligned known depth state'.names

theorem State.Aligned.inCoroutine {depth : Nat} {state state' : State}
    (haligned : state.Aligned known depth state') : state.inCoroutine = state'.inCoroutine := by
  rw [State.inCoroutine, State.inCoroutine, haligned.body]

/-- Two runs that end alike. Where they fail they may have left frames open, and agree on the
names nevertheless. -/
inductive EndAlike {α : Type} (known : List String) (depth : Nat) :
    Except Error α × State → Except Error α × State → Prop
  | ok (a : α) {after after' : State} (hafter : after.Aligned known depth after') :
      EndAlike known depth (.ok a, after) (.ok a, after')
  | error (error : Error) {after after' : State}
      (hafter : after.names.AgreeOn known after'.names) :
      EndAlike known depth (.error error, after) (.error error, after')

theorem EndAlike.outcome {α : Type} {depth : Nat} {ends ends' : Except Error α × State}
    (hends : EndAlike known depth ends ends') :
    ends.1 = ends'.1 ∧ ends.2.names.AgreeOn known ends'.2.names := by
  cases hends with
  | ok a hafter => exact ⟨rfl, hafter.names.agree⟩
  | error error hafter => exact ⟨rfl, hafter⟩

/-- A step that sees only the names that are known. It opens and closes frames so that of those
that are open inside the outer ones, `before` in number, `after` are left. -/
def Oblivious {α : Type} (known : List String) (before after : Nat) (step : Emitter α) : Prop :=
  ∀ state state' : State, state.Aligned known before state' →
    EndAlike known after (step state) (step state')

namespace Oblivious

variable {α β : Type} {before middle after depth : Nat}

theorem pure (a : α) : Oblivious known depth depth (Pure.pure a : Emitter α) :=
  fun _ _ haligned => .ok a haligned

theorem fail (error : Error) :
    Oblivious known before after (Action.fail error : Emitter α) :=
  fun _ _ haligned => .error error haligned.names.agree

theorem bind {step : Emitter α} {next : α → Emitter β}
    (hstep : Oblivious known before middle step)
    (hnext : ∀ a, Oblivious known middle after (next a)) :
    Oblivious known before after (step >>= next) := by
  intro state state' haligned
  have hends := hstep state state' haligned
  rw [Action.bind_apply, Action.bind_apply]
  generalize step state = ends at hends
  generalize step state' = ends' at hends
  cases hends with
  | ok a hmiddle => exact hnext a _ _ hmiddle
  | error error hafter => exact .error error hafter

theorem bind_pure {step : Emitter α} (hstep : Oblivious known before after step) (wrap : α → β) :
    Oblivious known before after (step >>= fun a => Pure.pure (wrap a)) :=
  hstep.bind fun a => pure (wrap a)

theorem get_bind {next : State → Emitter α}
    (hsame : ∀ state state', State.Aligned known before state state' → next state = next state')
    (hnext : ∀ state, Oblivious known before after (next state)) :
    Oblivious known before after (Action.get >>= next) := by
  intro state state' haligned
  rw [Emit.get_bind, Emit.get_bind, hsame state state' haligned]
  exact hnext state' state state' haligned

theorem read {view : Names → Except Error α}
    (hview : ∀ names names', Names.AgreeOn known names names' → view names = view names') :
    Oblivious known depth depth (Emitter.read view) := by
  intro state state' haligned
  unfold Emitter.read
  rw [hview _ _ haligned.names.agree]
  cases view state'.names with
  | ok a => exact .ok a haligned
  | error error => exact .error error haligned.names.agree

theorem update {change : Names → Except Error Names}
    (hchange : ∀ names names', Names.Aligned known before names names' →
      Agree (Names.Aligned known after) Eq (change names) (change names')) :
    Oblivious known before after (Emitter.update change) := by
  intro state state' haligned
  have hagree := hchange _ _ haligned.names
  unfold Emitter.update
  generalize change state.names = result at hagree
  generalize change state'.names = result' at hagree
  cases hagree with
  | ok hnames => exact .ok () ⟨haligned.body, hnames⟩
  | error herror =>
      subst herror
      exact .error _ haligned.names.agree

theorem enter : Oblivious known depth (depth + 1) Emitter.enter :=
  update fun _ _ haligned => .ok haligned.enter

theorem exit (stop : Position) : Oblivious known (depth + 1) depth (Emitter.exit stop) :=
  update fun _ _ haligned => haligned.exit stop

theorem declare {name : String} (hname : name ∈ known) (position : Position) :
    Oblivious known depth depth (Emitter.declare name position) :=
  update fun _ _ haligned => haligned.declare hname position

theorem register {declaration : Signature} (hname : declaration.name ∈ known)
    (position : Position) : Oblivious known 0 0 (Emitter.register declaration position) := by
  -- No frame is open here, so no tables behind one have to take the callable in.
  apply update
  intro names names' haligned
  exact haligned.agree.register hname position

theorem setBody (body : Body) : Oblivious known depth depth (Emitter.setBody body) :=
  fun _ _ haligned => .ok () ⟨rfl, haligned.names⟩

theorem inFrame {run : Emitter α} (hrun : Oblivious known (depth + 1) (depth + 1) run)
    (stop : Position) : Oblivious known depth depth (Emitter.inFrame stop run) :=
  enter.bind fun _ => hrun.bind fun a => (exit stop).bind_pure fun _ => a

theorem withBody {run : Emitter α} (hrun : Oblivious known before after run) (body : Body) :
    Oblivious known before after (Emitter.withBody body run) := by
  intro state state' haligned
  have hends := hrun { state with body } { state' with body } ⟨rfl, haligned.names⟩
  unfold Emitter.withBody
  generalize run { state with body } = ends at hends
  generalize run { state' with body } = ends' at hends
  cases hends with
  | ok a hafter =>
      simp only [hafter.body]
      exact .ok _ ⟨haligned.body, hafter.names⟩
  | error error hafter => exact .error error hafter

theorem declareParameters {parameters : List Parameter}
    (hparameters : parameters.map Parameter.name ⊆ known) :
    Oblivious known depth (depth + 1) (Emitter.declareParameters parameters) := by
  refine enter.bind fun _ => ?_
  induction parameters with
  | nil => exact pure ()
  | cons first others ih =>
      rw [List.map_cons, List.cons_subset] at hparameters
      exact (declare hparameters.1 _).bind fun _ => ih hparameters.2

end Oblivious

/-! Statements. -/

section Statements

variable {depth : Nat}

theorem oblivious_expr {value : Expr} (hmentions : value.mentions ⊆ known) :
    Oblivious known depth depth (read fun names => expr names value) :=
  .read fun _ _ hagree => expr_eq hagree hmentions

theorem oblivious_define {name : String} {value : Expr} (hname : name ∈ known)
    (hmentions : value.mentions ⊆ known) (span : Span) :
    Oblivious known depth depth (define name value span) := by
  refine (oblivious_expr hmentions).bind fun text => .get_bind ?_ fun state => ?_
  · intro state state' haligned
    simp only [haligned.names.agree.declared name hname, haligned.inCoroutine]
  · split
    · exact .pure _
    · split
      · exact .fail _
      · exact (Oblivious.declare hname _).bind_pure _

theorem oblivious_returns {value? : Option Expr}
    (hmentions : value?.toList.flatMap Expr.mentions ⊆ known) (span : Span) :
    Oblivious known depth depth (returns value? span) := by
  refine .get_bind ?_ fun state => ?_
  · intro state state' haligned
    simp only [haligned.inCoroutine]
  · split
    · exact .fail _
    · cases value? with
      | none => exact .pure _
      | some value => exact (oblivious_expr (by simpa using hmentions)).bind_pure _

theorem oblivious_yields {value : Expr} (hmentions : value.mentions ⊆ known) (span : Span) :
    Oblivious known depth depth (yields value span) := by
  refine .get_bind ?_ fun state => ?_
  · intro state state' haligned
    simp only [haligned.body]
  · split
    · exact (oblivious_expr hmentions).bind fun text => (Oblivious.setBody _).bind_pure _
    · exact .fail _

theorem oblivious_print {arguments : List Expr}
    (hmentions : arguments.flatMap Expr.mentions ⊆ known) :
    Oblivious known depth depth (print arguments) :=
  (Oblivious.read fun _ _ hagree => streamOperands_eq hagree hmentions).bind_pure _

theorem oblivious_branch {body : Stmt}
    (hbody : ∀ depth, Oblivious known depth depth (stmt body)) :
    Oblivious known depth depth (branch body (stmt body)) := by
  by_cases hblock : ∃ inner span, body = .block inner span
  · obtain ⟨inner, span, rfl⟩ := hblock
    exact hbody depth
  · rw [branch_of_not_block hblock]
    exact ((hbody (depth + 1)).inFrame _).bind_pure _

mutual

theorem oblivious_stmt : ∀ (tree : Stmt) (depth : Nat), tree.mentions ⊆ known →
    Oblivious known depth depth (stmt tree)
  | .expression value _, depth, hmentions => (oblivious_expr hmentions).bind_pure _
  | .block body span, depth, hmentions =>
      ((oblivious_stmts body (depth + 1) hmentions).inFrame _).bind_pure _
  | .define name value span, depth, hmentions => by
      rw [Stmt.mentions, List.cons_subset] at hmentions
      exact oblivious_define hmentions.1 hmentions.2 span
  | .ifThen condition thenBody _, depth, hmentions => by
      rw [Stmt.mentions, List.append_subset] at hmentions
      refine (oblivious_expr hmentions.1).bind fun test => ?_
      exact (oblivious_branch fun depth =>
        oblivious_stmt thenBody depth hmentions.2).bind_pure _
  | .ifElse condition thenBody elseBody _, depth, hmentions => by
      rw [Stmt.mentions, List.append_subset, List.append_subset] at hmentions
      obtain ⟨⟨hcondition, hthen⟩, helse⟩ := hmentions
      refine (oblivious_expr hcondition).bind fun test => ?_
      refine (oblivious_branch fun depth => oblivious_stmt thenBody depth hthen).bind
        fun thenText => ?_
      exact (oblivious_branch fun depth => oblivious_stmt elseBody depth helse).bind_pure _
  | .returns value? span, depth, hmentions => oblivious_returns hmentions span
  | .yields value span, depth, hmentions => oblivious_yields hmentions span
  | .print arguments _, depth, hmentions => oblivious_print hmentions
  | .forwardFunction _ _ _, _, _ | .function _ _ _ _ _, _, _ | .forwardCoroutine _ _ _, _, _
  | .coroutine _ _ _ _ _, _, _ | .entryPoint _ _ _ _, _, _ => .fail _

theorem oblivious_stmts : ∀ (trees : List Stmt) (depth : Nat), Stmt.mentionsAll trees ⊆ known →
    Oblivious known depth depth (stmts trees)
  | [], _, _ => .pure _
  | first :: others, depth, hmentions => by
      rw [Stmt.mentionsAll, List.append_subset] at hmentions
      refine (oblivious_stmt first depth hmentions.1).bind fun text => ?_
      exact (oblivious_stmts others depth hmentions.2).bind_pure _

end

theorem oblivious_blockContents {body : List Stmt} (hmentions : Stmt.mentionsAll body ⊆ known)
    (span : Span) : Oblivious known depth depth (blockContents body span) :=
  (oblivious_stmts body (depth + 1) hmentions).inFrame _

theorem oblivious_block {body : List Stmt} (hmentions : Stmt.mentionsAll body ⊆ known)
    (span : Span) : Oblivious known depth depth (block body span) :=
  (oblivious_blockContents hmentions span).bind_pure _

end Statements

/-! Definitions. -/

theorem oblivious_function {name : String} {parameters : List Parameter} {body : List Stmt}
    (hname : name ∈ known) (hparameters : parameters.map Parameter.name ⊆ known)
    (hmentions : Stmt.mentionsAll body ⊆ known) (bodySpan span : Span) :
    Oblivious known 0 0 (function name parameters body bodySpan span) := by
  refine (Oblivious.register hname _).bind fun _ => ?_
  refine (Oblivious.declareParameters hparameters).bind fun _ => ?_
  refine ((oblivious_block hmentions bodySpan).withBody .function).bind fun _ => ?_
  exact (Oblivious.exit _).bind_pure _

theorem oblivious_entryPoint {body : List Stmt} (hentry : entryName ∈ known)
    (hmentions : Stmt.mentionsAll body ⊆ known) (bodySpan span : Span) :
    Oblivious known 0 0 (entryPoint body bodySpan span) := by
  refine (Oblivious.register hentry _).bind fun _ => ?_
  exact ((oblivious_block hmentions bodySpan).withBody .function).bind_pure _

/-- The only step that asks for a name which need not occur in the definition. -/
theorem oblivious_coroutine {name : String} {parameters : List Parameter} {body : List Stmt}
    (hname : name ∈ known) (hparameters : parameters.map Parameter.name ⊆ known)
    (hmentions : Stmt.mentionsAll body ⊆ known) (hstate : Cpp.stateField ∈ known)
    (bodySpan span : Span) :
    Oblivious known 0 0 (coroutine name parameters body bodySpan span) := by
  refine (Oblivious.register hname _).bind fun _ => .get_bind ?_ fun state => ?_
  · intro state state' haligned
    simp only [hiddenByState?_eq haligned.names.agree hstate]
  · split
    · exact .fail _
    · refine (Oblivious.declareParameters hparameters).bind fun _ => ?_
      refine ((oblivious_blockContents hmentions bodySpan).withBody _).bind fun _ => ?_
      exact (Oblivious.exit _).bind_pure _

theorem oblivious_global {name : String} {value : Expr} (hname : name ∈ known)
    (hmentions : value.mentions ⊆ known) (span : Span) :
    Oblivious known 0 0 (global name value span) := by
  refine (oblivious_expr hmentions).bind fun text => ?_
  exact (Oblivious.declare hname _).bind_pure _

theorem oblivious_item {tree : Stmt} (hvocabulary : tree.vocabulary ⊆ known)
    (hstate : Cpp.stateField ∈ known) : Oblivious known 0 0 (item tree) := by
  cases tree with
  | forwardFunction name parameters span =>
      exact (Oblivious.register (hvocabulary (.head _)) _).bind_pure _
  | forwardCoroutine name parameters span =>
      exact (Oblivious.register (hvocabulary (.head _)) _).bind_pure _
  | function name parameters body bodySpan span =>
      rw [Stmt.vocabulary, List.cons_subset, List.append_subset] at hvocabulary
      obtain ⟨hname, hparameters, hmentions⟩ := hvocabulary
      exact oblivious_function hname hparameters hmentions bodySpan span
  | coroutine name parameters body bodySpan span =>
      rw [Stmt.vocabulary, List.cons_subset, List.append_subset] at hvocabulary
      obtain ⟨hname, hparameters, hmentions⟩ := hvocabulary
      exact oblivious_coroutine hname hparameters hmentions hstate bodySpan span
  | entryPoint parameters body bodySpan span =>
      rw [Stmt.vocabulary, List.cons_subset, List.append_subset] at hvocabulary
      obtain ⟨hentry, _, hmentions⟩ := hvocabulary
      exact oblivious_entryPoint hentry hmentions bodySpan span
  | define name value span =>
      obtain ⟨hname, hmentions⟩ := List.cons_subset.1 hvocabulary
      exact oblivious_global hname hmentions span
  | _ => exact .fail _

/-! What stands ahead of a definition. -/

theorem State.Agrees.agreeOn {state state' : State} {items items' : List Stmt}
    (hagrees : state.Agrees items) (hagrees' : state'.Agrees items')
    (hsame : ∀ name ∈ known,
      items.filter (Stmt.introduces name) = items'.filter (Stmt.introduces name)) :
    state.names.AgreeOn known state'.names := by
  constructor
  · intro name hname
    rw [Bool.eq_iff_iff, hagrees.declared, hagrees'.declared, ← mem_globals_filter,
      hsame name hname, mem_globals_filter]
  · intro name hname
    rw [(hagrees.records name).eq_getLast?, (hagrees'.records name).eq_getLast?,
      ← filter_declarations_filter, hsame name hname, filter_declarations_filter]

/-- Whatever definition is emitted, in whatever two states that agree on the names in it and on
that of the counter: the text or the error is the same, and the states agree afterwards on these
and on all other names on which they agreed before. So it is behind any two accepted lists of
definitions that define these names alike, whatever else stands among them and in whatever
order. -/
theorem item_determined_by_vocabulary (tree : Stmt) {known : List String}
    (hknown : tree.vocabulary ++ [Cpp.stateField, entryName] ⊆ known) :
    (∀ state state' : State, state.body = .topLevel → state'.body = .topLevel →
      state.names.AgreeOn known state'.names →
        (item tree state).1 = (item tree state').1 ∧
          (item tree state).2.names.AgreeOn known (item tree state').2.names) ∧
    ∀ (earlier earlier' : List Stmt) (after after' : State),
      Runs (items earlier) .initial after → Runs (items earlier') .initial after' →
      (∀ name ∈ known,
        earlier.filter (Stmt.introduces name) = earlier'.filter (Stmt.introduces name)) →
        (item tree after).1 = (item tree after').1 ∧
          (item tree after).2.names.AgreeOn known (item tree after').2.names := by
  have hitem : Oblivious known 0 0 (item tree) := by
    rw [List.append_subset] at hknown
    exact oblivious_item hknown.1 (hknown.2 (.head _))
  constructor
  · intro state state' hbody hbody' hagree
    exact (hitem state state' ⟨hbody.trans hbody'.symm, hagree⟩).outcome
  · intro earlier earlier' after after' hrun hrun' hsame
    have hagrees := (items_run State.agrees_initial earlier).2 after hrun
    have hagrees' := (items_run State.agrees_initial earlier').2 after' hrun'
    exact (hitem after after' ⟨hagrees.topLevel.trans hagrees'.topLevel.symm,
      hagrees.agreeOn hagrees' hsame⟩).outcome

/-- `def coroutine count(x) \x7b yield twice(x); \x7d`. -/
def counting : Stmt :=
  .coroutine "count" [⟨"x", default⟩]
    [.yields (.call "twice" [.symbol "x" default] default) default] default default

/-- Behind its callee and a variable that it does not use, in either order and with another
function between them. -/
theorem item_determined_by_vocabulary_reordered :
    ∃ after after' : State,
      Runs (items [.forwardFunction "twice" [⟨"y", default⟩] default,
        .define "z" (.number "1" default) default]) .initial after ∧
      Runs (items [.define "z" (.number "2" default) default,
        .forwardCoroutine "other" [] default,
        .forwardFunction "twice" [⟨"y", default⟩] default]) .initial after' ∧
      after.names.callables ≠ after'.names.callables ∧
      (∃ text, (item counting after).1 = .ok text ∧ (item counting after').1 = .ok text) ∧
      (item counting .initial).1 =
        (item counting ⟨⟨⟨[["y"]], ["z"]⟩, .empty⟩, .topLevel⟩).1 := by
  obtain ⟨hstates, hprograms⟩ := item_determined_by_vocabulary counting (List.Subset.refl _)
  have hrun : Runs (items [.forwardFunction "twice" [⟨"y", default⟩] default,
      .define "z" (.number "1" default) default]) .initial _ := ⟨_, rfl⟩
  have hrun' : Runs (items [.define "z" (.number "2" default) default,
      .forwardCoroutine "other" [] default,
      .forwardFunction "twice" [⟨"y", default⟩] default]) .initial _ := ⟨_, rfl⟩
  have hsame := hprograms _ _ _ _ hrun hrun' (by
    intro name hname
    fin_cases hname <;> rfl)
  refine ⟨_, _, hrun, hrun', by decide, ⟨_, rfl, hsame.1.symm⟩, ?_⟩
  exact (hstates _ _ rfl rfl ⟨by decide, by decide⟩).1

end Emit

end Coroscript
