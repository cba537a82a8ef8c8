import Coroscript.Emit.State
import Coroscript.Proofs.Emit.Reference
import Coroscript.Proofs.Tree.Nodes

namespace Coroscript

/-! An expression that has no text fails at the first of its nodes that refers to nothing. -/

namespace Names

/-- What is wrong with a node by itself, where it refers to something that is not there. -/
inductive Faults (names : Names) : Expr → Error → Prop
  | undeclared {name : String} {span : Span} (hname : ∀ frame ∈ names.scopes.frames, name ∉ frame) :
      Faults names (.symbol name span) ⟨.undefinedVariable name, span.start⟩
  | unregistered {callee : String} {arguments : List Expr} {span : Span}
      (hcallee : names.callables.get? callee = none) :
      Faults names (.call callee arguments span) ⟨.undefinedFunction callee, span.start⟩
  | arity {callee : String} {arguments : List Expr} {span : Span} {signature : Signature}
      (hcallee : names.callables.get? callee = some signature)
      (harity : signature.arity ≠ arguments.length) :
      Faults names (.call callee arguments span)
        ⟨.arityMismatch callee signature.arity arguments.length, span.start⟩

/-- The fault of a node, computed. -/
def fault? (names : Names) : Expr → Option Error
  | .symbol name span =>
      if names.scopes.isDeclared name then none else some ⟨.undefinedVariable name, span.start⟩
  | .call callee arguments span =>
      match names.resolve callee arguments.length span.start with
      | .ok _ => none
      | .error error => some error
  | _ => none

theorem fault?_eq_some_iff {names : Names} {node : Expr} {error : Error} :
    names.fault? node = some error ↔ names.Faults node error := by
  constructor
  · intro hfault
    cases node with
    | symbol name span =>
        rw [fault?] at hfault
        split at hfault
        · contradiction
        · rename_i hname
          obtain rfl := Option.some.inj hfault
          refine .undeclared fun frame hframe hmem => hname ?_
          exact Scopes.isDeclared_iff.2 ⟨frame, hframe, hmem⟩
    | call callee arguments span =>
        rw [fault?, resolve] at hfault
        cases hcallee : names.callables.get? callee with
        | none =>
            simp only [hcallee, Option.some.injEq] at hfault
            exact hfault ▸ .unregistered hcallee
        | some signature =>
            by_cases harity : signature.arity = arguments.length
            · simp [hcallee, harity] at hfault
            · simp only [hcallee, harity, if_false, Option.some.injEq] at hfault
              exact hfault ▸ .arity hcallee harity
    | _ => contradiction
  · intro hfaults
    cases hfaults with
    | @undeclared name span hname =>
        have hundeclared : ¬ names.scopes.isDeclared name = true := by
          rw [Scopes.isDeclared_iff]
          rintro ⟨frame, hframe, hmem⟩
          exact hname frame hframe hmem
        rw [fault?, if_neg hundeclared]
    | unregistered hcallee => simp [fault?, resolve, hcallee]
    | arity hcallee harity => simp [fault?, resolve, hcallee, harity]

end Names

namespace Emit

/-- A result, if there is no fault. -/
def resultOr {α : Type} (result : α) : Option Error → Except Error α
  | none => .ok result
  | some error => .error error

theorem resultOr_eq_error_iff {α : Type} {a : α} {fault? : Option Error} {error : Error} :
    resultOr a fault? = .error error ↔ fault? = some error := by
  cases fault? <;> simp [resultOr]

theorem resultOr_bind {α β : Type} {a : α} {b : β} {first? second? : Option Error}
    {next : α → Except Error β} (hnext : next a = resultOr b second?) :
    (resultOr a first? >>= next) = resultOr b (first?.or second?) := by
  cases first? with
  | none => exact hnext
  | some error => rfl

theorem resultOr_map {α β : Type} (a : α) (wrap : α → β) (fault? : Option Error) :
    (resultOr a fault? >>= fun a => pure (wrap a)) = resultOr (wrap a) fault? := by
  cases fault? <;> rfl

/-- A call fails before its arguments do. -/
theorem call_eq_resultOr {names : Names} {callee : String} {arguments : List Expr} {span : Span}
    (harguments : exprs names arguments =
      resultOr (exprTexts arguments) ((Expr.nodesAll arguments).findSome? names.fault?)) :
    (do
      let _ ← names.resolve callee arguments.length span.start
      let texts ← exprs names arguments
      return callText callee texts) =
      resultOr (callText callee (exprTexts arguments))
        ((Expr.call callee arguments span).nodes.findSome? names.fault?) := by
  rw [harguments, Expr.nodes, List.findSome?_cons, Names.fault?]
  cases names.resolve callee arguments.length span.start with
  | error error => rfl
  | ok signature => exact resultOr_map _ _ _

mutual

theorem expr_eq_resultOr (names : Names) : ∀ tree : Expr,
    expr names tree = resultOr (exprText tree) (tree.nodes.findSome? names.fault?)
  | .number _ _ | .string _ _ => rfl
  | .symbol name span => by
      rw [expr, Expr.nodes, List.findSome?_singleton, Names.fault?]
      split <;> rfl
  | .binary left operator right span => by
      rw [expr, expr_eq_resultOr names left, Expr.nodes, List.findSome?_cons_of_isNone rfl,
        List.findSome?_append]
      apply resultOr_bind
      rw [expr_eq_resultOr names right]
      exact resultOr_map _ _ _
  | .unary operator operand span => by
      rw [expr, expr_eq_resultOr names operand]
      exact resultOr_map _ _ _
  | .percent inner span => by
      rw [expr, expr_eq_resultOr names inner]
      exact resultOr_map _ _ _
  | .grouping inner span => by
      rw [expr, expr_eq_resultOr names inner]
      exact resultOr_map _ _ _
  | .conversion target value span => by
      rw [expr, expr_eq_resultOr names value]
      exact resultOr_map _ _ _
  | .next coroutine span => by
      rw [expr, expr_eq_resultOr names coroutine]
      exact resultOr_map _ _ _
  | .call callee arguments span => call_eq_resultOr (exprs_eq_resultOr names arguments)
  | .create callee arguments callSpan span => call_eq_resultOr (exprs_eq_resultOr names arguments)

theorem exprs_eq_resultOr (names : Names) : ∀ trees : List Expr,
    exprs names trees = resultOr (exprTexts trees) ((Expr.nodesAll trees).findSome? names.fault?)
  | [] => rfl
  | first :: others => by
      rw [exprs, expr_eq_resultOr names first, Expr.nodesAll, List.findSome?_append]
      apply resultOr_bind
      rw [exprs_eq_resultOr names others]
      exact resultOr_map _ _ _

end

theorem expr_eq_error_iff {names : Names} {tree : Expr} {error : Error} :
    expr names tree = .error error ↔
      ∃ before node after, tree.nodes = before ++ node :: after ∧
        (∀ earlier ∈ before, ∀ other, ¬ names.Faults earlier other) ∧ names.Faults node error := by
  simp only [expr_eq_resultOr, resultOr_eq_error_iff, List.findSome?_eq_some_iff,
    Option.eq_none_iff_forall_ne_some, ne_eq, Names.fault?_eq_some_iff]
  constructor
  · rintro ⟨before, node, after, hnodes, hfaults, hbefore⟩
    exact ⟨before, node, after, hnodes, hbefore, hfaults⟩
  · rintro ⟨before, node, after, hnodes, hbefore, hfaults⟩
    exact ⟨before, node, after, hnodes, hfaults, hbefore⟩

theorem exists_expr_eq_error_iff {names : Names} {tree : Expr} :
    (∃ error, expr names tree = .error error) ↔
      ∃ node ∈ tree.nodes, ∃ error, names.Faults node error := by
  simp only [expr_eq_resultOr, resultOr_eq_error_iff, ← Option.isSome_iff_exists,
    List.isSome_findSome?, List.any_eq_true, ← Names.fault?_eq_some_iff]

/-- Whatever the state and the expression. Its emission changes nothing; it fails exactly if some
node refers to nothing, and then with the fault of the first such node. -/
theorem expr_fails_at_first_fault (state : State) (tree : Expr) :
    (Emitter.read (fun names => expr names tree) state).2 = state ∧
    ((∃ error, (Emitter.read (fun names => expr names tree) state).1 = .error error) ↔
      ∃ node ∈ tree.nodes, ∃ error, state.names.Faults node error) ∧
    ∀ error, (Emitter.read (fun names => expr names tree) state).1 = .error error ↔
      ∃ before node after, tree.nodes = before ++ node :: after ∧
        (∀ earlier ∈ before, ∀ other, ¬ state.names.Faults earlier other) ∧
        state.names.Faults node error :=
  ⟨rfl, exists_expr_eq_error_iff, fun _ => expr_eq_error_iff⟩

end Emit

end Coroscript
