import Coroscript.Proofs.Emit.Changes
import Coroscript.Proofs.Name.Registry
import Mathlib.Data.List.Basic

namespace Coroscript

/-! What holds of the names in use at every moment, also after failures. -/

namespace Names

/-- The names are consistent: there is a frame, no two frames share a name, no name in a
frame is that of a callable, and every record of a callable is kept under its own name. -/
structure Consistent (names : Names) : Prop where
  open_frame : names.scopes.frames ≠ []
  disjoint : names.scopes.frames.Pairwise List.Disjoint
  unregistered : ∀ frame ∈ names.scopes.frames, ∀ name ∈ frame,
    names.callables.isRegistered name = false
  keyed : names.callables.Keyed

theorem consistent_empty : empty.Consistent where
  open_frame := by simp [empty, Scopes.empty, Scopes.frames]
  disjoint := by simp [empty, Scopes.empty, Scopes.frames]
  unregistered := by simp [empty, Scopes.empty, Scopes.frames]
  keyed := Callables.keyed_empty

namespace Consistent

variable {names after : Names}

theorem enter (hnames : names.Consistent) : names.enter.Consistent where
  open_frame := List.cons_ne_nil _ _
  disjoint := List.pairwise_cons.2 ⟨fun frame _ => List.disjoint_nil_left frame, hnames.disjoint⟩
  unregistered := List.forall_mem_cons.2 ⟨by simp, hnames.unregistered⟩
  keyed := hnames.keyed

theorem exit (hnames : names.Consistent) {scopes : Scopes}
    (hexit : names.scopes.exit? = some scopes) : Consistent { names with scopes } := by
  have hframes : ∃ frame, names.scopes.frames = frame :: scopes.frames := by
    unfold Scopes.exit? at hexit
    split at hexit
    · contradiction
    · rename_i frame inner hinner
      cases hexit
      exact ⟨frame, by simp [Scopes.frames, hinner]⟩
  obtain ⟨frame, hframes⟩ := hframes
  obtain ⟨-, hdisjoint, hunregistered, hkeyed⟩ := hnames
  rw [hframes] at hdisjoint hunregistered
  exact ⟨by simp [Scopes.frames], (List.pairwise_cons.1 hdisjoint).2,
    (List.forall_mem_cons.1 hunregistered).2, hkeyed⟩

theorem declare (hnames : names.Consistent) {name : String} (hfree : ¬ names.isTaken name = true) :
    Consistent { names with scopes := names.scopes.insert name } := by
  simp only [isTaken, Bool.or_eq_true, not_or, Bool.not_eq_true] at hfree
  obtain ⟨hundeclared, hunregistered⟩ := hfree
  -- The innermost frame is the one that changes, whichever it is.
  obtain ⟨frame, outer, hframes, hinsert⟩ : ∃ frame outer, names.scopes.frames = frame :: outer ∧
      (names.scopes.insert name).frames = (name :: frame) :: outer := by
    unfold Scopes.insert Scopes.frames
    cases names.scopes.inner with
    | nil => exact ⟨names.scopes.global, [], rfl, rfl⟩
    | cons frame inner => exact ⟨frame, inner ++ [names.scopes.global], rfl, rfl⟩
  have hnew : ∀ other ∈ outer, name ∉ other := by
    intro other hother hmem
    have hdeclared : names.scopes.isDeclared name = true :=
      Scopes.isDeclared_iff.2 ⟨other, by rw [hframes]; exact .tail frame hother, hmem⟩
    rw [hundeclared] at hdeclared
    contradiction
  obtain ⟨-, hdisjoint, hcallables, hkeyed⟩ := hnames
  rw [hframes] at hdisjoint hcallables
  obtain ⟨hfirst, hothers⟩ := List.pairwise_cons.1 hdisjoint
  obtain ⟨hframe, houter⟩ := List.forall_mem_cons.1 hcallables
  refine ⟨?_, ?_, ?_, hkeyed⟩
  · rw [hinsert]
    exact List.cons_ne_nil _ _
  · rw [hinsert]
    refine List.pairwise_cons.2 ⟨fun other hother => ?_, hothers⟩
    exact List.disjoint_cons_left.2 ⟨hnew other hother, hfirst other hother⟩
  · rw [hinsert]
    exact List.forall_mem_cons.2 ⟨List.forall_mem_cons.2 ⟨hunregistered, hframe⟩, houter⟩

theorem register (hnames : names.Consistent) {declaration : Signature} {callables : Callables}
    (hundeclared : ¬ names.scopes.isDeclared declaration.name = true)
    (hregister : names.callables.register? declaration = some callables) :
    Consistent { names with callables } where
  open_frame := hnames.open_frame
  disjoint := hnames.disjoint
  unregistered := by
    intro frame hframe name hname
    have hother : name ≠ declaration.name := by
      intro hsame
      exact hundeclared (Scopes.isDeclared_iff.2 ⟨frame, hframe, hsame ▸ hname⟩)
    have hnone := hnames.unregistered frame hframe name hname
    rwa [Callables.isRegistered, Callables.get?_of_register? hregister, if_neg hother]
  keyed := hnames.keyed.register hregister

theorem apply {change : Change} (hnames : names.Consistent)
    (hchange : names.change? change = some after) : after.Consistent := by
  cases change with
  | enter => exact Option.some.inj hchange ▸ hnames.enter
  | exit =>
      obtain ⟨scopes, hexit, rfl⟩ := Option.map_eq_some_iff.1 hchange
      exact hnames.exit hexit
  | declare name =>
      rw [change?] at hchange
      split at hchange
      · contradiction
      · rename_i hfree
        exact Option.some.inj hchange ▸ hnames.declare hfree
  | register declaration =>
      rw [change?] at hchange
      split at hchange
      · contradiction
      · rename_i hundeclared
        obtain ⟨callables, hregister, rfl⟩ := Option.map_eq_some_iff.1 hchange
        exact hnames.register hundeclared hregister

end Consistent

end Names

namespace Emit

open Emitter

/-- What can be asked of the emitter, of any trees and in any order. `item` emits a
definition of any kind; `inBody` runs a list of operations in a body of another kind. -/
inductive Operation where
  | enter
  | exit (position : Position)
  | declare (name : String) (position : Position)
  | register (declaration : Signature) (position : Position)
  | declareParameters (parameters : List Parameter)
  | setBody (body : Body)
  | inBody (body : Body) (inside : List Operation)
  | expr (value : Expr)
  | stmt (tree : Stmt)
  | blockContents (body : List Stmt) (span : Span)
  | function (name : String) (parameters : List Parameter) (body : List Stmt)
      (bodySpan span : Span)
  | coroutine (name : String) (parameters : List Parameter) (body : List Stmt)
      (bodySpan span : Span)
  | entryPoint (body : List Stmt) (bodySpan span : Span)
  | item (tree : Stmt)

namespace Operation

mutual

/-- The state after an operation, whether it succeeded or failed. -/
def perform : Operation → State → State
  | .enter, state => (Emitter.enter state).2
  | .exit position, state => (Emitter.exit position state).2
  | .declare name position, state => (Emitter.declare name position state).2
  | .register declaration position, state => (Emitter.register declaration position state).2
  | .declareParameters parameters, state => (Emitter.declareParameters parameters state).2
  | .setBody body, state => (Emitter.setBody body state).2
  | .inBody body inside, state =>
      (withBody body (Action.modify (performAll inside)) state).2
  | .expr value, state => (read (fun names => Emit.expr names value) state).2
  | .stmt tree, state => (Emit.stmt tree state).2
  | .blockContents body span, state => (Emit.blockContents body span state).2
  | .function name parameters body bodySpan span, state =>
      (Emit.function name parameters body bodySpan span state).2
  | .coroutine name parameters body bodySpan span, state =>
      (Emit.coroutine name parameters body bodySpan span state).2
  | .entryPoint body bodySpan span, state => (Emit.entryPoint body bodySpan span state).2
  | .item tree, state => (Emit.item tree state).2

/-- The state after a list of operations; a failure does not stop it. -/
def performAll : List Operation → State → State
  | [], state => state
  | first :: others, state => performAll others (first.perform state)

end

/-- The operation as a step. Only its failure is told. -/
def run : Operation → Emitter Unit
  | .enter => Emitter.enter
  | .exit position => Emitter.exit position
  | .declare name position => Emitter.declare name position
  | .register declaration position => Emitter.register declaration position
  | .declareParameters parameters => Emitter.declareParameters parameters
  | .setBody body => Emitter.setBody body
  | .inBody body inside =>
      withBody body (Action.modify (performAll inside)) >>= fun _ => pure ()
  | .expr value => (read fun names => Emit.expr names value) >>= fun _ => pure ()
  | .stmt tree => Emit.stmt tree >>= fun _ => pure ()
  | .blockContents body span => Emit.blockContents body span >>= fun _ => pure ()
  | .function name parameters body bodySpan span =>
      Emit.function name parameters body bodySpan span >>= fun _ => pure ()
  | .coroutine name parameters body bodySpan span =>
      Emit.coroutine name parameters body bodySpan span >>= fun _ => pure ()
  | .entryPoint body bodySpan span => Emit.entryPoint body bodySpan span >>= fun _ => pure ()
  | .item tree => Emit.item tree >>= fun _ => pure ()

theorem run_snd (operation : Operation) (state : State) :
    (operation.run state).2 = operation.perform state := by
  have hquiet {α : Type} (step : Emitter α) :
      ((step >>= fun _ => pure ()) state : Except Error Unit × State).2 = (step state).2 := by
    rw [Action.bind_apply]
    cases step state with
    | mk result after => cases result <;> rfl
  cases operation with
  | enter | exit | declare | register | declareParameters | setBody => rfl
  | _ => exact hquiet _

def item? : Operation → Option Stmt
  | .function name parameters body bodySpan span =>
      some (.function name parameters body bodySpan span)
  | .coroutine name parameters body bodySpan span =>
      some (.coroutine name parameters body bodySpan span)
  | .entryPoint body bodySpan span => some (.entryPoint [] body bodySpan span)
  | .item tree => some tree
  | _ => none

theorem run_eq_item {operation : Operation} {tree : Stmt} (hitem : operation.item? = some tree) :
    operation.run = (Emit.item tree >>= fun _ => pure ()) := by
  cases operation with
  | function | coroutine | entryPoint | item =>
      obtain rfl := Option.some.inj hitem
      rfl
  | _ => contradiction

/-- The registration that an operation starts with, if it makes one. -/
def registration? : Operation → Option (Signature × Position)
  | .register declaration position => some (declaration, position)
  | operation =>
      operation.item?.bind fun tree =>
        tree.declaration?.map fun declaration => (declaration, tree.span.start)

theorem run_eq_register {operation : Operation} {declaration : Signature} {position : Position}
    (hregistration : operation.registration? = some (declaration, position)) :
    ∃ rest : Emitter Unit,
      operation.run = (Emitter.register declaration position >>= fun _ => rest) ∧
        ∀ {related}, Names.Tolerant related → Respects related rest := by
  by_cases hdirect : ∃ declaration position, operation = .register declaration position
  · obtain ⟨_, _, rfl⟩ := hdirect
    cases hregistration
    exact ⟨pure (), (bind_pure_unit).symm, fun htolerant => respects_pure htolerant ()⟩
  · obtain ⟨tree, hitem, hdeclaration⟩ : ∃ tree, operation.item? = some tree ∧
        tree.declaration?.map (fun declaration => (declaration, tree.span.start)) =
          some (declaration, position) := by
      cases operation with
      | register declaration position => exact absurd ⟨declaration, position, rfl⟩ hdirect
      | _ => exact Option.bind_eq_some_iff.1 hregistration
    obtain ⟨declared, hdeclared, hsame⟩ := Option.map_eq_some_iff.1 hdeclaration
    cases hsame
    obtain ⟨rest, hregister, hrest⟩ := item_eq_register hdeclared
    refine ⟨rest >>= fun _ => pure (), ?_, fun htolerant => (hrest htolerant).map htolerant _⟩
    rw [run_eq_item hitem, hregister, bind_assoc]

/-- Whether an operation holds no others. -/
def isPlain : Operation → Bool
  | .inBody _ _ => false
  | _ => true

section Plain

variable {related : Names → Names → Prop} (htolerant : Names.Tolerant related)
  {operation : Operation} (hplain : operation.isPlain = true)

include htolerant hplain

theorem respects_perform_of_none (hnone : operation.registration? = none) (state : State) :
    related state.names (operation.perform state).names := by
  cases operation with
  | enter => exact respects_enter htolerant state
  | exit position => exact respects_exit htolerant position state
  | declare name position => exact respects_declare htolerant name position state
  | declareParameters parameters => exact respects_declareParameters htolerant parameters state
  | setBody body => exact respects_setBody htolerant body state
  | expr value => exact respects_read htolerant (fun names => Emit.expr names value) state
  | stmt tree => exact respects_stmt htolerant tree state
  | blockContents body span => exact respects_blockContents htolerant body span state
  | item tree =>
      have hdeclaration : tree.declaration? = none := Option.map_eq_none_iff.1 hnone
      exact respects_item_of_no_declaration htolerant hdeclaration state
  | inBody | register | function | coroutine | entryPoint => contradiction

theorem respects_perform_plain (hregister : Names.AtRegistration related) (state : State) :
    related state.names (operation.perform state).names := by
  cases hregistration : operation.registration? with
  | none => exact respects_perform_of_none htolerant hplain hregistration state
  | some registration =>
      obtain ⟨rest, hrun, hrest⟩ := run_eq_register hregistration
      rw [← run_snd, hrun]
      apply (respects_register htolerant.refl hregister _ _).bind htolerant
      intro _
      exact hrest htolerant

end Plain

mutual

theorem respects_perform {related : Names → Names → Prop} (htolerant : Names.Tolerant related)
    (hregister : Names.AtRegistration related) : ∀ (operation : Operation) (state : State),
    related state.names (operation.perform state).names
  | .inBody body inside, state => by
      have hinside : Respects related (Action.modify (performAll inside)) :=
        respects_performAll htolerant hregister inside
      exact hinside.withBody body state
  | .enter, state | .exit _, state | .declare _ _, state | .register _ _, state
  | .declareParameters _, state | .setBody _, state | .expr _, state | .stmt _, state
  | .blockContents _ _, state | .function _ _ _ _ _, state | .coroutine _ _ _ _ _, state
  | .entryPoint _ _ _, state | .item _, state =>
      respects_perform_plain htolerant rfl hregister state

theorem respects_performAll {related : Names → Names → Prop} (htolerant : Names.Tolerant related)
    (hregister : Names.AtRegistration related) : ∀ (operations : List Operation) (state : State),
    related state.names (performAll operations state).names
  | [], state => htolerant.refl state.names
  | first :: others, state =>
      htolerant.trans (respects_perform htolerant hregister first state)
        (respects_performAll htolerant hregister others (first.perform state))

end

theorem changes_performAll (operations : List Operation) (state : State) :
    ∃ changes, state.names.changeAll? changes = some (performAll operations state).names :=
  respects_performAll Names.tolerant_changes Names.atRegistration_changes operations state

/-- After any operations in any order on any trees, whichever of them failed, the names in
use are consistent. -/
theorem consistent_performAll (operations : List Operation) :
    (performAll operations .initial).names.Consistent := by
  obtain ⟨changes, hchanges⟩ := changes_performAll operations .initial
  apply Names.changeAll?_induction _ hchanges
  · exact Names.consistent_empty
  · intro names change after hchange hnames
    exact hnames.apply hchange

end Operation

end Emit

end Coroscript
