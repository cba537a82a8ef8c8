import Coroscript.Emit.Expr

namespace Coroscript

/-! The names that an expression refers to. They decide whether it has a text, and
the text itself does not depend on them. -/

/-- A use of a name: of a variable, or of a callable with a number of arguments. -/
inductive Reference where
  | value (name : String)
  | call (name : String) (count : Nat)
deriving DecidableEq, Repr

def Reference.name : Reference → String
  | value name | call name _ => name

namespace Expr

mutual

def references : Expr → List Reference
  | .number _ _ | .string _ _ => []
  | .symbol name _ => [.value name]
  | .binary left _ right _ => left.references ++ right.references
  | .unary _ operand _ => operand.references
  | .percent operand _ => operand.references
  | .grouping inner _ => inner.references
  | .conversion _ value _ => value.references
  | .call callee arguments _ => .call callee arguments.length :: referencesAll arguments
  | .next coroutine _ => coroutine.references
  | .create callee arguments _ _ => .call callee arguments.length :: referencesAll arguments

def referencesAll : List Expr → List Reference
  | [] => []
  | first :: others => first.references ++ referencesAll others

end

end Expr

def Names.Resolves (names : Names) : Reference → Prop
  | .value name => names.scopes.isDeclared name = true
  | .call name count => (names.callables.get? name).map Signature.arity = some count

instance (names : Names) : (reference : Reference) → Decidable (names.Resolves reference)
  | .value name => inferInstanceAs (Decidable (names.scopes.isDeclared name = true))
  | .call name count =>
      inferInstanceAs (Decidable ((names.callables.get? name).map Signature.arity = some count))

theorem Names.resolve_ok_iff {names : Names} {name : String} {count : Nat}
    {position : Position} :
    (∃ signature, names.resolve name count position = .ok signature) ↔
      names.Resolves (.call name count) := by
  cases hget : names.callables.get? name with
  | none => simp [resolve, Resolves, hget]
  | some signature =>
      by_cases harity : signature.arity = count
      · simp [resolve, Resolves, hget, harity]
      · simp [resolve, Resolves, hget, harity]

namespace Emit

theorem bind_eq_ok_iff {ε α β : Type} {first : Except ε α} {next : α → Except ε β} {b : β} :
    (first >>= next) = .ok b ↔ ∃ a, first = .ok a ∧ next a = .ok b := by
  cases first with
  | error e =>
      constructor
      · intro hbind
        contradiction
      · rintro ⟨a, hfirst, _⟩
        contradiction
  | ok a =>
      constructor
      · exact fun hnext => ⟨a, rfl, hnext⟩
      · rintro ⟨b, hfirst, hnext⟩
        exact Except.ok.inj hfirst ▸ hnext

mutual

/-- The text of an expression whose references all mean something. -/
def exprText : Expr → String
  | .number text _ => text
  | .string bytes _ => Cpp.stringLiteral bytes
  | .symbol name _ => name
  | .binary left operator right _ =>
      binaryText left operator right (exprText left) (exprText right)
  | .unary operator operand _ => unaryText operator operand (exprText operand)
  | .percent inner _ =>
      "(" ++ operand inner (precedence .star) .left (exprText inner) ++ " * 0.01)"
  | .grouping inner _ => inParens (exprText inner)
  | .conversion target value _ =>
      "static_cast<" ++ typeText target ++ ">" ++ inParens (exprText value)
  | .call callee arguments _ => callText callee (exprTexts arguments)
  | .next coroutine _ => nextText coroutine (exprText coroutine)
  | .create callee arguments _ _ => callText callee (exprTexts arguments)

def exprTexts : List Expr → List String
  | [] => []
  | first :: others => exprText first :: exprTexts others

end

def streamText (argument : Expr) : String :=
  operand argument shiftPrecedence .left (exprText argument)

theorem bind_pure_eq_ok_iff {ε α β : Type} {first : Except ε α} {wrap : α → β} {found : Prop}
    {a : α} {b : β} (hfirst : ∀ {x : α}, first = .ok x ↔ found ∧ x = a) :
    (first >>= fun x => pure (wrap x)) = .ok b ↔ found ∧ b = wrap a := by
  rw [bind_eq_ok_iff]
  constructor
  · rintro ⟨x, hx, hwrap⟩
    obtain ⟨hfound, rfl⟩ := hfirst.1 hx
    exact ⟨hfound, (Except.ok.inj hwrap).symm⟩
  · rintro ⟨hfound, rfl⟩
    exact ⟨a, hfirst.2 ⟨hfound, rfl⟩, rfl⟩

theorem call_eq_ok_iff {names : Names} {callee : String} {arguments : List Expr}
    {position : Position} {text : String}
    (harguments : ∀ {texts : List String}, exprs names arguments = .ok texts ↔
      (∀ reference ∈ Expr.referencesAll arguments, names.Resolves reference) ∧
        texts = exprTexts arguments) :
    (do
      let _ ← names.resolve callee arguments.length position
      let texts ← exprs names arguments
      return callText callee texts) = .ok text ↔
      (∀ reference ∈ .call callee arguments.length :: Expr.referencesAll arguments,
        names.Resolves reference) ∧ text = callText callee (exprTexts arguments) := by
  rw [bind_eq_ok_iff, List.forall_mem_cons, ← @Names.resolve_ok_iff names callee _ position]
  simp only [bind_pure_eq_ok_iff harguments]
  constructor
  · rintro ⟨signature, hresolve, hreferences, htext⟩
    exact ⟨⟨⟨signature, hresolve⟩, hreferences⟩, htext⟩
  · rintro ⟨⟨⟨signature, hresolve⟩, hreferences⟩, htext⟩
    exact ⟨signature, hresolve, hreferences, htext⟩

mutual

/-- An expression has a text exactly if its references mean something. -/
theorem expr_eq_ok_iff {names : Names} : ∀ (tree : Expr) {text : String},
    expr names tree = .ok text ↔
      (∀ reference ∈ tree.references, names.Resolves reference) ∧ text = exprText tree
  | .number text span, _ => by
      simp [expr, exprText, Expr.references, pure, Except.pure, eq_comm]
  | .string bytes span, _ => by
      simp [expr, exprText, Expr.references, pure, Except.pure, eq_comm]
  | .symbol name span, text => by
      rw [expr, exprText, Expr.references, List.forall_mem_singleton]
      by_cases hname : names.scopes.isDeclared name = true
      · rw [if_pos hname]
        exact ⟨fun htext => ⟨hname, (Except.ok.inj htext).symm⟩, fun htext => by rw [htext.2]; rfl⟩
      · rw [if_neg hname]
        exact ⟨fun htext => by contradiction, fun htext => absurd htext.1 hname⟩
  | .binary left operator right span, text => by
      simp only [expr, exprText, Expr.references, bind_eq_ok_iff, expr_eq_ok_iff left,
        expr_eq_ok_iff right, List.mem_append, or_imp, forall_and]
      constructor
      · rintro ⟨_, ⟨hleft, rfl⟩, _, ⟨hright, rfl⟩, htext⟩
        exact ⟨⟨hleft, hright⟩, (Except.ok.inj htext).symm⟩
      · rintro ⟨⟨hleft, hright⟩, rfl⟩
        exact ⟨_, ⟨hleft, rfl⟩, _, ⟨hright, rfl⟩, rfl⟩
  | .unary operator operand span, _ => bind_pure_eq_ok_iff (expr_eq_ok_iff operand)
  | .percent inner span, _ => bind_pure_eq_ok_iff (expr_eq_ok_iff inner)
  | .grouping inner span, _ => bind_pure_eq_ok_iff (expr_eq_ok_iff inner)
  | .conversion target value span, _ => bind_pure_eq_ok_iff (expr_eq_ok_iff value)
  | .next coroutine span, _ => bind_pure_eq_ok_iff (expr_eq_ok_iff coroutine)
  | .call callee arguments span, _ => call_eq_ok_iff (exprs_eq_ok_iff arguments)
  | .create callee arguments callSpan span, _ => call_eq_ok_iff (exprs_eq_ok_iff arguments)

theorem exprs_eq_ok_iff {names : Names} : ∀ (trees : List Expr) {texts : List String},
    exprs names trees = .ok texts ↔
      (∀ reference ∈ Expr.referencesAll trees, names.Resolves reference) ∧
        texts = exprTexts trees
  | [], _ => by
      simp [exprs, exprTexts, Expr.referencesAll, pure, Except.pure, eq_comm]
  | first :: others, texts => by
      simp only [exprs, exprTexts, Expr.referencesAll, bind_eq_ok_iff, expr_eq_ok_iff first,
        exprs_eq_ok_iff others, List.mem_append, or_imp, forall_and]
      constructor
      · rintro ⟨_, ⟨hfirst, rfl⟩, _, ⟨hothers, rfl⟩, htexts⟩
        exact ⟨⟨hfirst, hothers⟩, (Except.ok.inj htexts).symm⟩
      · rintro ⟨⟨hfirst, hothers⟩, rfl⟩
        exact ⟨_, ⟨hfirst, rfl⟩, _, ⟨hothers, rfl⟩, rfl⟩

end

end Emit

end Coroscript
