import Coroscript.Emit.Item
import Coroscript.Proofs.Static.Rules

namespace Coroscript

/-! What holds between the names before a step and those after it, whether or not the
step fails. Statements can only open and close frames and declare variables; a definition
registers its callable first and then does no more than statements do. -/

namespace Names

structure Tolerant (related : Names → Names → Prop) : Prop where
  refl : ∀ names, related names names
  trans : ∀ {first second third}, related first second → related second third →
    related first third
  enter : ∀ names, related names names.enter
  exit : ∀ {names scopes}, names.scopes.exit? = some scopes →
    related names { names with scopes }
  declare : ∀ {names name}, ¬ names.isTaken name = true →
    related names { names with scopes := names.scopes.insert name }

def AtRegistration (related : Names → Names → Prop) : Prop :=
  ∀ names declaration callables, ¬ names.scopes.isDeclared declaration.name = true →
    names.callables.register? declaration = some callables →
    related names { names with callables }

end Names

namespace Emit

open Emitter

def Respects {α : Type} (related : Names → Names → Prop) (run : Emitter α) : Prop :=
  ∀ state : State, related state.names (run state).2.names

variable {related : Names → Names → Prop}

section Steps

variable {α β : Type}

theorem Respects.bind (htolerant : Names.Tolerant related) {first : Emitter α}
    {next : α → Emitter β} (hfirst : Respects related first)
    (hnext : ∀ a, Respects related (next a)) : Respects related (first >>= next) := by
  intro state
  have hmiddle := hfirst state
  rw [Action.bind_apply]
  cases hrun : first state with
  | mk result middle =>
      rw [hrun] at hmiddle
      cases result with
      | error error => exact hmiddle
      | ok a => exact htolerant.trans hmiddle (hnext a middle)

theorem respects_update {change : Names → Except Error Names}
    (hrefl : ∀ names, related names names)
    (hchange : ∀ {names after}, change names = .ok after → related names after) :
    Respects related (update change) := by
  intro state
  unfold update
  cases hnames : change state.names with
  | error error => exact hrefl state.names
  | ok names => exact hchange hnames

theorem respects_register (hrefl : ∀ names, related names names)
    (hregister : Names.AtRegistration related) (declaration : Signature) (position : Position) :
    Respects related (register declaration position) := by
  apply respects_update hrefl
  intro names after hafter
  unfold Names.register at hafter
  split at hafter
  · contradiction
  · rename_i hundeclared
    cases hcallables : names.callables.register? declaration with
    | none => simp [hcallables] at hafter
    | some callables =>
        simp only [hcallables, Except.ok.injEq] at hafter
        exact hafter ▸ hregister names declaration callables hundeclared hcallables

section Tolerant

variable (htolerant : Names.Tolerant related)

include htolerant

theorem respects_of_same {run : Emitter α} (hsame : ∀ state, (run state).2.names = state.names) :
    Respects related run := by
  intro state
  rw [hsame]
  exact htolerant.refl state.names

theorem respects_pure (a : α) : Respects related (pure a) :=
  respects_of_same htolerant fun _ => rfl

theorem respects_fail (error : Error) : Respects related (Action.fail error : Emitter α) :=
  respects_of_same htolerant fun _ => rfl

theorem respects_read (view : Names → Except Error α) : Respects related (read view) :=
  respects_of_same htolerant fun _ => rfl

theorem respects_get : Respects related Action.get :=
  respects_of_same htolerant fun _ => rfl

theorem respects_setBody (body : Body) : Respects related (setBody body) :=
  respects_of_same htolerant fun _ => rfl

theorem respects_enter : Respects related enter := by
  apply respects_update htolerant.refl
  intro names after hafter
  exact Except.ok.inj hafter ▸ htolerant.enter names

theorem respects_exit (position : Position) : Respects related (exit position) := by
  apply respects_update htolerant.refl
  intro names after hafter
  unfold Names.exit at hafter
  cases hexit : names.scopes.exit? with
  | none => simp [hexit] at hafter
  | some scopes =>
      simp only [hexit, Except.ok.injEq] at hafter
      exact hafter ▸ htolerant.exit hexit

theorem respects_declare (name : String) (position : Position) :
    Respects related (declare name position) := by
  apply respects_update htolerant.refl
  intro names after hafter
  unfold Names.declare at hafter
  split at hafter
  · contradiction
  · rename_i hfree
    exact Except.ok.inj hafter ▸ htolerant.declare hfree

theorem Respects.map {run : Emitter α} (hrun : Respects related run) (wrap : α → β) :
    Respects related (run >>= fun a => pure (wrap a)) :=
  hrun.bind htolerant fun a => respects_pure htolerant (wrap a)

theorem Respects.inFrame {run : Emitter α} (hrun : Respects related run) (stop : Position) :
    Respects related (inFrame stop run) := by
  apply (respects_enter htolerant).bind htolerant
  intro _
  apply hrun.bind htolerant
  intro result
  exact (respects_exit htolerant stop).map htolerant fun _ => result

omit htolerant in
/-- The kind of body is no name: changing it back and forth changes no names. -/
theorem Respects.withBody {run : Emitter α} (hrun : Respects related run) (body : Body) :
    Respects related (withBody body run) := by
  intro state
  have hinside := hrun { state with body }
  unfold Emitter.withBody
  cases hresult : run { state with body } with
  | mk result after =>
      rw [hresult] at hinside
      cases result with
      | error error => exact hinside
      | ok a => exact hinside

theorem respects_declareAll (parameters : List Parameter) :
    Respects related (parameters.forM fun parameter =>
      declare parameter.name parameter.span.start) := by
  induction parameters with
  | nil => exact respects_pure htolerant ()
  | cons parameter parameters ih =>
      apply (respects_declare htolerant parameter.name parameter.span.start).bind htolerant
      intro _
      exact ih

theorem respects_declareParameters (parameters : List Parameter) :
    Respects related (declareParameters parameters) := by
  apply (respects_enter htolerant).bind htolerant
  intro _
  exact respects_declareAll htolerant parameters

end Tolerant

end Steps

/-! Statements. -/

section Statements

variable (htolerant : Names.Tolerant related)

include htolerant

theorem respects_define (name : String) (value : Expr) (span : Span) :
    Respects related (define name value span) := by
  apply (respects_read htolerant _).bind htolerant
  intro text
  apply (respects_get htolerant).bind htolerant
  intro state
  split
  · exact respects_pure htolerant _
  · split
    · exact respects_fail htolerant _
    · exact (respects_declare htolerant name span.start).map htolerant _

theorem respects_returns (value? : Option Expr) (span : Span) :
    Respects related (returns value? span) := by
  apply (respects_get htolerant).bind htolerant
  intro state
  split
  · exact respects_fail htolerant _
  · cases value? with
    | none => exact respects_pure htolerant _
    | some value => exact (respects_read htolerant _).map htolerant _

theorem respects_yields (value : Expr) (span : Span) : Respects related (yields value span) := by
  apply (respects_get htolerant).bind htolerant
  intro state
  cases state.body with
  | topLevel => exact respects_fail htolerant _
  | function => exact respects_fail htolerant _
  | coroutine lowering =>
      apply (respects_read htolerant _).bind htolerant
      intro text
      exact (respects_setBody htolerant _).map htolerant _

theorem Respects.branch {body : Stmt} {run : Emitter String} (hrun : Respects related run) :
    Respects related (branch body run) := by
  unfold Emit.branch
  split
  · exact hrun
  · exact (hrun.inFrame htolerant body.span.stop).map htolerant _

mutual

theorem respects_stmt : ∀ (tree : Stmt), Respects related (stmt tree)
  | .expression value span => (respects_read htolerant _).map htolerant _
  | .block body span => ((respects_stmts body).inFrame htolerant span.stop).map htolerant _
  | .define name value span => respects_define htolerant name value span
  | .ifThen condition thenBody span => by
      apply (respects_read htolerant _).bind htolerant
      intro test
      exact ((respects_stmt thenBody).branch htolerant).map htolerant _
  | .ifElse condition thenBody elseBody span => by
      apply (respects_read htolerant _).bind htolerant
      intro test
      apply ((respects_stmt thenBody).branch htolerant).bind htolerant
      intro thenText
      exact ((respects_stmt elseBody).branch htolerant).map htolerant _
  | .returns value? span => respects_returns htolerant value? span
  | .yields value span => respects_yields htolerant value span
  | .print arguments span => (respects_read htolerant _).map htolerant _
  | .forwardFunction _ _ _ | .function _ _ _ _ _ | .forwardCoroutine _ _ _
  | .coroutine _ _ _ _ _ | .entryPoint _ _ _ _ => respects_fail htolerant _

theorem respects_stmts : ∀ (trees : List Stmt), Respects related (stmts trees)
  | [] => respects_pure htolerant []
  | first :: others => by
      apply (respects_stmt first).bind htolerant
      intro text
      exact (respects_stmts others).map htolerant _

end

theorem respects_blockContents (body : List Stmt) (span : Span) :
    Respects related (blockContents body span) :=
  (respects_stmts htolerant body).inFrame htolerant span.stop

/-! Definitions. -/

theorem respects_scoped {β : Type} {α : Type} (parameters : List Parameter) (kind : Body)
    {run : Emitter α} (hrun : Respects related run) {next : α × Body → Emitter β}
    (hnext : ∀ result, Respects related (next result)) :
    Respects related (declareParameters parameters >>= fun _ => withBody kind run >>= next) := by
  apply (respects_declareParameters htolerant parameters).bind htolerant
  intro _
  exact (hrun.withBody kind).bind htolerant hnext

omit htolerant in
theorem item_eq_register {tree : Stmt} {declaration : Signature}
    (hdeclaration : tree.declaration? = some declaration) :
    ∃ rest : Emitter String,
      item tree = (register declaration tree.span.start >>= fun _ => rest) ∧
        ∀ {related}, Names.Tolerant related → Respects related rest := by
  cases tree with
  | forwardFunction name parameters span =>
      obtain rfl := Option.some.inj hdeclaration
      exact ⟨_, rfl, fun htolerant => respects_pure htolerant _⟩
  | forwardCoroutine name parameters span =>
      obtain rfl := Option.some.inj hdeclaration
      exact ⟨_, rfl, fun htolerant => respects_pure htolerant _⟩
  | function name parameters body bodySpan span =>
      obtain rfl := Option.some.inj hdeclaration
      refine ⟨_, rfl, fun htolerant => ?_⟩
      apply respects_scoped htolerant parameters
      · exact (respects_blockContents htolerant body bodySpan).map htolerant _
      · intro result
        exact (respects_exit htolerant span.stop).map htolerant _
  | entryPoint parameters body bodySpan span =>
      obtain rfl := Option.some.inj hdeclaration
      refine ⟨_, rfl, fun htolerant => ?_⟩
      have hblock := (respects_blockContents htolerant body bodySpan).map htolerant Cpp.braced
      exact (hblock.withBody .function).map htolerant _
  | coroutine name parameters body bodySpan span =>
      obtain rfl := Option.some.inj hdeclaration
      refine ⟨_, rfl, fun htolerant => ?_⟩
      apply (respects_get htolerant).bind htolerant
      intro state
      split
      · exact respects_fail htolerant _
      · apply respects_scoped htolerant parameters
        · exact respects_blockContents htolerant body bodySpan
        · intro result
          exact (respects_exit htolerant span.stop).map htolerant _
  | _ => contradiction

theorem respects_item_of_no_declaration {tree : Stmt} (hnone : tree.declaration? = none) :
    Respects related (item tree) := by
  cases tree with
  | define name value span =>
      apply (respects_read htolerant _).bind htolerant
      intro text
      exact (respects_declare htolerant name span.start).map htolerant _
  | forwardFunction _ _ _ | function _ _ _ _ _ | forwardCoroutine _ _ _ | coroutine _ _ _ _ _
  | entryPoint _ _ _ _ => contradiction
  | _ => exact respects_fail htolerant _

end Statements

end Emit

end Coroscript
