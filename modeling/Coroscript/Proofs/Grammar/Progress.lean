import Coroscript.Proofs.Grammar.Lockstep

namespace Coroscript.Grammar

/-! No rule of the language looks behind an end mark or takes one, and every rule takes a word
before it reads a part. -/

open Coroscript.Parser

theorem lt_length_of_kindAt {words : List Token} {index : Nat}
    (hkind : kindAt words index ≠ .eof) : index < words.length := by
  by_contra hindex
  exact hkind (by simp [kindAt, Nat.not_lt.1 hindex])

/-! Expressions. -/

section Expressions

variable {recurse recurse' : Power → Parser Expr} {limit : Nat} {words : List Token}

theorem lockstep_primary : Lockstep words.length words primary primary := by
  apply Lockstep.gets_bind fun token token' => token = token' ∧ token.kind = kindAt words 0
  · intro horizon cursor cursor' habreast
    exact ⟨habreast.current_eq, habreast.current_kind⟩
  · rintro token _ ⟨rfl, hkind⟩
    rw [hkind]
    cases words with
    | nil => exact .unexpected
    | cons word rest =>
        split
        iterate 3
          apply (Lockstep.advance (List.cons_ne_nil _ _)).bind
          intro _ after hafter
          exact .pure _ hafter
        exact .unexpected

theorem powerAt_eq_of_abreast {horizon : Horizon} {cursor cursor' : Cursor}
    (habreast : cursor.Abreast horizon words cursor') :
    standard.powerAt cursor = standard.powerAt cursor' ∧
      (words = [] → standard.powerAt cursor = .lowest) := by
  have hcurrent := habreast.current_eq
  cases words with
  | nil =>
      have hkind : cursor.current.kind = .eof := habreast.current_kind
      have hpower (other : Cursor) (hother : other.current.kind = .eof) :
          standard.powerAt other = .lowest := by
        rw [powerAt, hother]
        rfl
      rw [hpower cursor hkind, hpower cursor' (hcurrent ▸ hkind)]
      exact ⟨rfl, fun _ => rfl⟩
  | cons word rest =>
      have hnext := (habreast.peek_eq (Nat.le_add_left 1 rest.length)).1
      rw [powerAt, powerAt, hcurrent, hnext]
      exact ⟨rfl, fun hnil => absurd hnil (List.cons_ne_nil word rest)⟩

variable (hrecurse : ∀ power, LockstepBelow 0 limit (recurse power) (recurse' power))
include hrecurse

theorem lockstep_lead (rule : LeadRule) (hwords : words ≠ []) (hlimit : words.length ≤ limit) :
    Lockstep words.length words (lead recurse rule) (lead recurse' rule) := by
  have hoperand (power : Power) {rest : List Token} (hrest : rest.length < words.length) :
      Lockstep rest.length rest (recurse power) (recurse' power) :=
    hrecurse power rest (by omega)
  cases rule with
  | primary => exact lockstep_primary
  | unary =>
      apply (Lockstep.advance hwords).bind
      intro operator rest hrest
      apply (hoperand .unary hrest).bind
      intro operand after hafter
      exact .pure _ (by omega)
  | grouping =>
      apply (Lockstep.advance hwords).bind
      intro opening rest hrest
      apply (hoperand .lowest hrest).bind
      intro inner rest hinner
      apply (Lockstep.expect (by decide)).bind
      intro closing after hafter
      exact .pure _ (by omega)
  | conversion =>
      apply (Lockstep.advance hwords).bind
      intro keyword rest hrest
      apply (Lockstep.expect (by decide)).bind
      intro opening rest hopening
      apply (hoperand .lowest (by omega)).bind
      intro value rest hvalue
      apply (Lockstep.expect (by decide)).bind
      intro closing after hafter
      exact .pure _ (by omega)
  | next =>
      apply (Lockstep.advance hwords).bind
      intro keyword rest hrest
      apply (hoperand .unary hrest).bind
      intro coroutine after hafter
      exact .pure _ (by omega)
  | create =>
      apply (Lockstep.advance hwords).bind
      intro keyword rest hrest
      apply (hoperand .unary hrest).bind
      intro target after hafter
      split
      · exact .pure _ (by omega)
      · exact .fail _

theorem lockstep_binary (left : Expr) (power : Power) (hwords : words ≠ [])
    (hlimit : words.length ≤ limit) :
    Lockstep words.length words (binary recurse left power) (binary recurse' left power) := by
  apply (Lockstep.advance hwords).bind
  intro operator rest hrest
  apply Lockstep.bind (hrecurse power rest (by omega))
  intro right after hafter
  exact .pure _ (by omega)

theorem lockstep_percent (left : Expr) (hwords : words ≠ []) (hlimit : words.length ≤ limit) :
    Lockstep words.length words (percent recurse left) (percent recurse' left) := by
  apply (Lockstep.advance hwords).bind
  intro operator rest hrest
  apply Lockstep.kind_bind
  split
  · apply Lockstep.bind (hrecurse .multiplicative rest (by omega))
    intro right after hafter
    exact .pure _ (by omega)
  · exact .pure _ hrest

theorem lockstep_call (left : Expr) (hlimit : words.length ≤ limit) :
    Lockstep words.length words (call recurse left) (call recurse' left) := by
  unfold call
  split
  · apply (lockstep_parenthesised (hrecurse .lowest) hlimit).bind
    intro arguments rest hrest
    apply Lockstep.look_bind fun habreast => habreast.previousEnd_eq
    intro stop
    exact .pure _ hrest
  · apply Lockstep.look_bind fun habreast => habreast.current_eq
    intro token
    exact .fail _

theorem lockstep_follow (rule : FollowRule) (left : Expr) (power : Power) (hwords : words ≠ [])
    (hlimit : words.length ≤ limit) :
    Lockstep words.length words (follow recurse rule left power)
      (follow recurse' rule left power) := by
  cases rule with
  | binary => exact lockstep_binary hrecurse left power hwords hlimit
  | exponent => exact lockstep_binary hrecurse left .multiplicative hwords hlimit
  | percent => exact lockstep_percent hrecurse left hwords hlimit
  | call => exact lockstep_call hrecurse left hlimit

/-- An operator and its operand behind `left`, and on from there, if the operator holds tighter
than `power`. -/
def operatorsRound (grammar : Grammar) (recurse : Power → Parser Expr) (power : Power)
    (onwards : Expr → Parser Expr) (left : Expr) : Parser Expr := do
  let operatorPower ← Action.gets grammar.powerAt
  if power.rank < operatorPower.rank then
    match grammar.follow? (← kind) with
    | none => unexpected
    | some rule =>
        let extended ← follow recurse rule left operatorPower
        onwards extended
  else return left

theorem lockstep_operatorsRound {onwards onwards' : Expr → Parser Expr} {limit' : Nat}
    (honwards : ∀ left, LockstepBelow 1 limit' (onwards left) (onwards' left)) (power : Power)
    (left : Expr) (hlimit : words.length ≤ limit) (hlimit' : words.length ≤ limit') :
    Lockstep (words.length + 1) words (operatorsRound standard recurse power onwards left)
      (operatorsRound standard recurse' power onwards' left) := by
  apply Lockstep.gets_bind fun found found' => found = found' ∧ (words = [] → found = .lowest)
  · intro horizon cursor cursor' habreast
    exact powerAt_eq_of_abreast habreast
  · rintro operatorPower _ ⟨rfl, hmark⟩
    split
    · rename_i hpower
      have hwords : words ≠ [] := by
        intro hnil
        rw [hmark hnil] at hpower
        exact Nat.not_lt_zero _ hpower
      apply Lockstep.kind_bind
      split
      · exact .unexpected
      · apply (lockstep_follow hrecurse _ left operatorPower hwords hlimit).bind
        intro extended rest hrest
        exact (honwards extended rest (by omega)).mono (by omega)
    · exact .pure _ (Nat.lt_succ_self _)

theorem lockstep_operators (power : Power) (count count' : Nat) (left : Expr) :
    LockstepBelow 1 (min (limit + 1) (min count count'))
      (operators standard recurse power count left)
      (operators standard recurse' power count' left) := by
  induction count generalizing count' left with
  | zero => exact fun words hwords => absurd hwords (by omega)
  | succ count ih =>
      cases count' with
      | zero => exact fun words hwords => absurd hwords (by omega)
      | succ count' =>
          intro words hwords
          exact lockstep_operatorsRound hrecurse (ih count') power left (by omega) (by omega)

/-- An operand that starts by the rule of its first token, where `recurse` reads the operands
inside, and on from there. -/
def exprRound (grammar : Grammar) (recurse : Power → Parser Expr)
    (onwards : Expr → Parser Expr) : Parser Expr := do
  match grammar.lead? (← kind) with
  | none => unexpected
  | some rule =>
      let left ← lead recurse rule
      onwards left

theorem lockstep_exprRound {onwards onwards' : Expr → Parser Expr}
    (honwards : ∀ left, LockstepBelow 1 limit (onwards left) (onwards' left))
    (hlimit : words.length ≤ limit) :
    Lockstep words.length words (exprRound standard recurse onwards)
      (exprRound standard recurse' onwards') := by
  apply Lockstep.kind_bind
  cases hrule : standard.lead? (kindAt words 0) with
  | none => exact .unexpected
  | some rule =>
      have hwords : words ≠ [] := by
        rintro rfl
        contradiction
      apply (lockstep_lead hrecurse rule hwords hlimit).bind
      intro left rest hrest
      exact (honwards left rest (by omega)).mono (by omega)

end Expressions

theorem unrolls_operators {recurse : Power → Parser Expr}
    (hrecurse : ∀ power, Steady 0 (recurse power)) (power : Power) :
    Unrolls 1 (operatorsRound standard recurse power) (operators standard recurse power) := by
  refine .of_contracts ?_ fun _ _ => rfl
  intro limit onwards onwards' honwards left words hwords
  exact lockstep_operatorsRound (fun power words _ => hrecurse power words) honwards power left
    (Nat.le_refl _) (Nat.le_of_lt_succ hwords)

/-- The operators behind an operand are read as long as there are any. -/
theorem unrolls_exprWithin :
    Unrolls 0
      (fun recurse power => exprRound standard recurse fun left cursor =>
        operators standard recurse power cursor.remaining left cursor)
      (exprWithin standard) where
  contracts := by
    intro limit recurse recurse' hrecurse power words hwords
    refine lockstep_exprRound hrecurse (fun left rest hrest => ?_) (Nat.le_of_lt_succ hwords)
    exact .remaining fun count count' hcount hcount' =>
      lockstep_operators hrecurse power count count' left rest (by omega)
  step := by
    intro count hcount power words hwords
    refine lockstep_exprRound hcount (fun left rest hrest => ?_) (Nat.le_of_lt_succ hwords)
    intro horizon cursor cursor' habreast
    have hremaining := habreast.lt_remaining.2
    have hrounds := lockstep_operators hcount power count cursor'.remaining left rest (by omega)
    exact hrounds _ _ _ habreast

theorem steady_expr (power : Power) : Steady 0 (standard.expr power) :=
  unrolls_exprWithin.steady power

/-! Statements. -/

section Statements

variable {words : List Token}

theorem lockstep_expr (power : Power) :
    Lockstep words.length words (standard.expr power) (standard.expr power) :=
  steady_expr power words

theorem lockstep_semicolon {bound : Nat} {result : Position → Stmt}
    (hwords : words.length ≤ bound) :
    Lockstep bound words
      (do
        let _ ← expect .semicolon
        return result (← previousEnd))
      (do
        let _ ← expect .semicolon
        return result (← previousEnd)) := by
  apply (Lockstep.expect (by decide)).bind
  intro _ after hafter
  apply Lockstep.look_bind fun habreast => habreast.previousEnd_eq
  intro stop
  exact .pure _ (by omega)

theorem lockstep_assignment (start : Position) :
    Lockstep words.length words (assignment standard start) (assignment standard start) := by
  apply (Lockstep.expectBecause (by decide) _).bind
  intro name rest hname
  apply (Lockstep.expect (by decide)).bind
  intro _ rest hequals
  apply (lockstep_expr .lowest).bind
  intro value rest hvalue
  exact lockstep_semicolon (by omega)

theorem lockstep_define : Lockstep words.length words (define standard) (define standard) := by
  rw [define_eq]
  apply Lockstep.look_bind fun habreast => habreast.position_eq
  intro start
  apply Lockstep.kind_bind
  split
  · apply (Lockstep.advance (by rintro rfl; contradiction)).bind
    intro _ rest hrest
    exact (lockstep_assignment start).mono (by omega)
  · exact lockstep_assignment start

theorem lockstep_localDefine (hwords : words ≠ []) :
    Lockstep words.length words (localDefine standard) (localDefine standard) := by
  rw [localDefine]
  apply Lockstep.peekKind_bind (List.length_pos_iff.2 hwords)
  by_cases hname : kindAt words 1 = .identifier
  · apply Lockstep.peekKind_bind (lt_length_of_kindAt (by rw [hname]; decide))
    split
    · exact lockstep_define
    · exact .unexpectedBecause _
  · -- The end mark may be the next token, and then the one behind it does not count.
    apply Lockstep.peekKind_bind_any
    intro found found'
    rw [if_neg fun h => hname h.1, if_neg fun h => hname h.1]
    exact .unexpectedBecause _

theorem lockstep_returns (hwords : words ≠ []) :
    Lockstep words.length words (returns standard) (returns standard) := by
  apply (Lockstep.advance hwords).bind
  intro keyword rest hrest
  apply Lockstep.kind_bind
  split
  · apply (Lockstep.advance (by rintro rfl; contradiction)).bind
    intro _ after hafter
    apply Lockstep.look_bind fun habreast => habreast.previousEnd_eq
    intro stop
    exact .pure _ (by omega)
  · apply (lockstep_expr .lowest).bind
    intro value rest hvalue
    exact lockstep_semicolon (by omega)

theorem lockstep_yields (hwords : words ≠ []) :
    Lockstep words.length words (yields standard) (yields standard) := by
  apply (Lockstep.advance hwords).bind
  intro keyword rest hrest
  apply (lockstep_expr .lowest).bind
  intro value rest hvalue
  exact lockstep_semicolon (by omega)

theorem lockstep_print (hwords : words ≠ []) :
    Lockstep words.length words (print standard) (print standard) := by
  apply (Lockstep.advance hwords).bind
  intro keyword rest hrest
  apply (lockstep_parenthesised (fun words _ => steady_expr .lowest words) (Nat.le_refl _)).bind
  intro arguments rest harguments
  exact lockstep_semicolon (by omega)

theorem lockstep_expression :
    Lockstep words.length words (expression standard) (expression standard) := by
  apply (lockstep_expr .lowest).bind
  intro value rest hvalue
  apply (Lockstep.expect (by decide)).bind
  intro _ after hafter
  exact .pure _ (by omega)

def parameter : Parser Parameter := do
  let name ← expectBecause .identifier "expected parameter name"
  return ⟨name.value, name.span⟩

theorem steady_parameter : Steady 0 parameter := by
  intro words
  apply (Lockstep.expectBecause (by decide) _).bind
  intro name rest hname
  exact .pure _ hname

theorem lockstep_parameters : Lockstep words.length words parameters parameters :=
  lockstep_parenthesised (fun words _ => steady_parameter words) (Nat.le_refl _)

variable {recurse recurse' : Parser Stmt} {limit : Nat}

/-- Unless a brace closes the body, one statement of it and then `others`. -/
def statementsRound (recurse : Parser Stmt) (others : Parser (List Stmt)) :
    Parser (List Stmt) := do
  match ← kind with
  | .closeCurly => return []
  | .eof => unexpectedBecause "expected '\x7d'"
  | _ =>
      let first ← recurse
      let others ← others
      return first :: others

theorem lockstep_statementsRound {others others' : Parser (List Stmt)} {limit' : Nat}
    (hrecurse : LockstepBelow 0 limit recurse recurse')
    (hothers : LockstepBelow 1 limit' others others') (hlimit : words.length < limit)
    (hlimit' : words.length ≤ limit') :
    Lockstep (words.length + 1) words (statementsRound recurse others)
      (statementsRound recurse' others') := by
  apply Lockstep.kind_bind
  split
  · exact .pure _ (Nat.lt_succ_self _)
  · exact .unexpectedBecause _
  · apply Lockstep.bind (hrecurse words hlimit)
    intro first rest hrest
    apply Lockstep.bind (hothers rest (by omega))
    intro others after hafter
    exact .pure _ (by omega)

variable (hrecurse : LockstepBelow 0 limit recurse recurse')
include hrecurse

theorem lockstep_statements (count count' : Nat) :
    LockstepBelow 1 (min limit (min count count')) (statements recurse count)
      (statements recurse' count') := by
  induction count generalizing count' with
  | zero => exact fun words hwords => absurd hwords (by omega)
  | succ count ih =>
      cases count' with
      | zero => exact fun words hwords => absurd hwords (by omega)
      | succ count' =>
          intro words hwords
          exact lockstep_statementsRound hrecurse (ih count') (by omega) (by omega)

theorem lockstep_block (hlimit : words.length ≤ limit) :
    Lockstep words.length words (block recurse) (block recurse') := by
  apply (Lockstep.expect (by decide)).bind
  intro opening inner hinner
  apply Lockstep.bind (Lockstep.remaining fun count count' hcount hcount' =>
    lockstep_statements hrecurse count count' inner (by omega))
  intro body rest hrest
  apply (Lockstep.expect (by decide)).bind
  intro closing after hafter
  exact .pure _ (by omega)

theorem lockstep_branch (hwords : words ≠ []) (hlimit : words.length ≤ limit) :
    Lockstep words.length words (branch standard recurse) (branch standard recurse') := by
  apply (Lockstep.advance hwords).bind
  intro keyword rest hrest
  apply (Lockstep.expect (by decide)).bind
  intro _ rest hopening
  apply (lockstep_expr .lowest).bind
  intro condition rest hcondition
  apply (Lockstep.expect (by decide)).bind
  intro _ rest hclosing
  apply Lockstep.bind (hrecurse rest (by omega))
  intro thenBody rest hthen
  apply Lockstep.kind_bind
  split
  · apply (Lockstep.advance (by rintro rfl; contradiction)).bind
    intro _ rest hotherwise
    apply Lockstep.bind (hrecurse rest (by omega))
    intro elseBody after hafter
    apply Lockstep.look_bind fun habreast => habreast.previousEnd_eq
    intro stop
    exact .pure _ (by omega)
  · apply Lockstep.look_bind fun habreast => habreast.previousEnd_eq
    intro stop
    exact .pure _ (by omega)

theorem lockstep_stmtBy {rule : StmtRule} (hrule : standard.stmt? (kindAt words 0) = some rule)
    (hlimit : words.length ≤ limit) :
    Lockstep words.length words (stmtBy standard recurse rule)
      (stmtBy standard recurse' rule) := by
  have hwords : words ≠ [] := by
    rintro rfl
    contradiction
  simp only [standard] at hrule
  split at hrule
  · cases hrule
    apply (lockstep_block hrecurse hlimit).bind
    intro found after hafter
    exact .pure _ hafter
  · cases hrule
    exact lockstep_branch hrecurse hwords hlimit
  · cases hrule
    exact lockstep_returns hwords
  · cases hrule
    exact lockstep_yields hwords
  · cases hrule
    exact lockstep_print hwords
  · cases hrule
    exact lockstep_localDefine hwords
  · contradiction

/-- A statement by the rule of its first token, where `recurse` reads the statements inside. -/
def stmtRound (grammar : Grammar) (recurse : Parser Stmt) : Parser Stmt := do
  match grammar.stmt? (← kind) with
  | some rule => stmtBy grammar recurse rule
  | none =>
      if (← kind) = .identifier ∧ (← peekKind 1) = .assignment then define grammar
      else expression grammar

theorem lockstep_stmtRound (hlimit : words.length ≤ limit) :
    Lockstep words.length words (stmtRound standard recurse) (stmtRound standard recurse') := by
  apply Lockstep.kind_bind
  cases hrule : standard.stmt? (kindAt words 0) with
  | some rule => exact lockstep_stmtBy hrecurse hrule hlimit
  | none =>
      apply Lockstep.kind_bind
      by_cases hname : kindAt words 0 = .identifier
      · apply Lockstep.peekKind_bind (lt_length_of_kindAt (by rw [hname]; decide))
        split
        · exact lockstep_define
        · exact lockstep_expression
      · apply Lockstep.peekKind_bind_any
        intro found found'
        rw [if_neg fun h => hname h.1, if_neg fun h => hname h.1]
        exact lockstep_expression

end Statements

theorem unrolls_statements {recurse : Parser Stmt} (hrecurse : Steady 0 recurse) :
    Unrolls 1 (fun others (_ : Unit) => statementsRound recurse (others ()))
      (fun count _ => statements recurse count) := by
  refine .of_contracts ?_ fun _ _ => rfl
  intro limit others others' hothers _ words hwords
  exact lockstep_statementsRound (fun words _ => hrecurse words) (hothers ()) (Nat.lt_succ_self _)
    (Nat.le_of_lt_succ hwords)

theorem unrolls_stmtWithin :
    Unrolls 0 (fun recurse (_ : Unit) => stmtRound standard (recurse ()))
      (fun count _ => stmtWithin standard count) := by
  refine .of_contracts ?_ fun _ _ => rfl
  intro limit recurse recurse' hrecurse _ words hwords
  exact lockstep_stmtRound (hrecurse ()) (Nat.le_of_lt_succ hwords)

theorem steady_stmt : Steady 0 standard.stmt :=
  unrolls_stmtWithin.steady ()

theorem steady_block : Steady 0 (block standard.stmt) :=
  fun _ => lockstep_block (fun words _ => steady_stmt words) (Nat.le_refl _)

/-! Definitions and programs. -/

section Items

variable {words : List Token}

theorem lockstep_body? :
    Lockstep words.length words (body? standard.stmt) (body? standard.stmt) := by
  apply Lockstep.kind_bind
  split
  · apply (Lockstep.advance (by rintro rfl; contradiction)).bind
    intro _ after hafter
    exact .pure _ hafter
  · apply Lockstep.bind (steady_block words)
    intro found after hafter
    exact .pure _ hafter

theorem lockstep_function (hwords : words ≠ []) :
    Lockstep words.length words (function standard.stmt) (function standard.stmt) := by
  apply (Lockstep.advance hwords).bind
  intro keyword rest hrest
  apply (Lockstep.expect (by decide)).bind
  intro name rest hname
  apply lockstep_parameters.bind
  intro parameters rest hparameters
  split
  · apply Lockstep.bind (steady_block rest)
    intro found after hafter
    apply Lockstep.look_bind fun habreast => habreast.previousEnd_eq
    intro stop
    exact .pure _ (by omega)
  · apply lockstep_body?.bind
    intro found after hafter
    split
    · apply Lockstep.look_bind fun habreast => habreast.previousEnd_eq
      intro stop
      exact .pure _ (by omega)
    · apply Lockstep.look_bind fun habreast => habreast.previousEnd_eq
      intro stop
      exact .pure _ (by omega)

theorem lockstep_coroutine (hwords : words ≠ []) :
    Lockstep words.length words (coroutine standard.stmt) (coroutine standard.stmt) := by
  apply (Lockstep.advance hwords).bind
  intro keyword rest hrest
  apply (Lockstep.expect (by decide)).bind
  intro _ rest hkind
  apply (Lockstep.expectBecause (by decide) _).bind
  intro name rest hname
  apply lockstep_parameters.bind
  intro parameters rest hparameters
  apply lockstep_body?.bind
  intro found after hafter
  split
  · apply Lockstep.look_bind fun habreast => habreast.previousEnd_eq
    intro stop
    exact .pure _ (by omega)
  · apply Lockstep.look_bind fun habreast => habreast.previousEnd_eq
    intro stop
    exact .pure _ (by omega)

/-- A definition is told by three words; where the end mark comes earlier there is none. -/
theorem steady_item : Steady 0 standard.item := by
  intro words
  rw [item, itemWith]
  apply Lockstep.kind_bind
  cases words with
  | nil =>
      apply Lockstep.peekKind_bind_any
      intro _ _
      apply Lockstep.peekKind_bind_any
      intro _ _
      exact .unexpectedBecause _
  | cons word others =>
      cases others with
      | nil =>
          apply Lockstep.peekKind_bind (Nat.le_refl 1)
          apply Lockstep.peekKind_bind_any
          intro third third'
          -- No definition has the end mark for its second word.
          have hmark : kindAt [word] 1 = .eof := rfl
          rw [hmark]
          split
          iterate 4 contradiction
          split
          iterate 4 contradiction
          exact .unexpectedBecause _
      | cons second rest =>
          apply Lockstep.peekKind_bind (by simp)
          apply Lockstep.peekKind_bind (by simp)
          split
          · exact lockstep_coroutine (by simp)
          · exact lockstep_function (by simp)
          · exact lockstep_define
          · exact lockstep_define
          · exact .unexpectedBecause _

/-- Unless the end mark is reached, one definition and then `others`. -/
def itemsRound (grammar : Grammar) (others : Parser (List Stmt)) : Parser (List Stmt) := do
  if (← kind) = .eof then return []
  else
    let first ← grammar.item
    let others ← others
    return first :: others

theorem unrolls_items :
    Unrolls 1 (fun others (_ : Unit) => itemsRound standard (others ()))
      (fun count _ => items standard count) := by
  refine .of_contracts ?_ fun _ _ => rfl
  intro limit others others' hothers _ words hwords
  apply Lockstep.kind_bind
  split
  · exact .pure _ (Nat.lt_succ_self _)
  · apply Lockstep.bind (steady_item words)
    intro first rest hrest
    apply Lockstep.bind (hothers () rest (by omega))
    intro others after hafter
    exact .pure _ (by omega)

theorem steady_program (file : String) : Steady 1 (standard.program file) := by
  intro words
  apply Lockstep.bind (unrolls_items.steady () words)
  intro items rest hrest
  apply Lockstep.look_bind fun habreast => habreast.position_eq
  intro stop
  exact .pure _ hrest

end Items

end Coroscript.Grammar
