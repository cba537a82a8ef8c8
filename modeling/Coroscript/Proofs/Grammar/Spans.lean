import Coroscript.Proofs.Grammar.Located

namespace Coroscript

/-! Reading gives every expression of a program the span of its words. -/

open Coroscript.Parser

theorem RendersCommas.separated {trees : List Expr} {words : List Token}
    (htrees : RendersCommas Located trees words) : LocatedSeparated trees words := by
  induction htrees with
  | last htree => exact .last htree
  | cons htree hcomma _ ih => exact .cons htree hcomma ih

section InOrder

variable {places : Expr → List Token → Prop} {trees : List Expr} {words : List Token}

theorem RendersCommas.inOrder (htrees : RendersCommas places trees words) :
    InOrder places trees words := by
  induction htrees with
  | last htree => exact .single htree
  | cons htree _ _ ih => exact (InOrder.single htree).append (ih.behind [_])

theorem RendersParens.inOrder (htrees : RendersParens places trees words) :
    InOrder places trees words := by
  cases htrees with
  | empty _ _ => exact .nil _
  | items _ htrees _ => exact htrees.inOrder.within ⟨[_], [_], rfl⟩

end InOrder

namespace Grammar

/-- The reader takes the words of the expressions that it returns. -/
def Locates (recurse : Power → Parser Expr) : Prop :=
  ∀ power cursor, Takes (recurse power) cursor fun tree words _ => Located tree words

section Rules

variable {recurse : Power → Parser Expr} {cursor : Cursor}

theorem takes_arguments (hrecurse : Locates recurse) (cursor : Cursor) :
    Takes (parenthesised (recurse .lowest)) cursor fun trees words after =>
      LocatedArguments trees words after.previousEnd := by
  have hitem (cursor : Cursor) : Takes (recurse .lowest) cursor fun tree words _ =>
      True ∧ Located tree words := by
    apply (hrecurse .lowest cursor).imp
    intro tree words after htree
    exact ⟨trivial, htree⟩
  rw [parenthesised]
  apply takes_expect (by decide)
  intro opening inside hopening
  apply takes_look
  split
  · rename_i hclosing
    apply takes_token_end (fun htoken => ⟨hclosing, advance_eq_ok htoken⟩) (by decide)
    intro closing after hclosing hstop
    apply takes_pure
    rw [hstop]
    exact .empty hopening hclosing
  · apply Takes.bind (takes_remaining (takes_separated hitem inside.remaining inside))
    intro trees words behind htrees
    apply takes_token_end expect_eq_ok (by decide)
    intro closing after hclosing hstop
    apply takes_pure
    rw [hstop]
    exact .items hopening htrees.2.separated hclosing

theorem takes_primary : Takes primary cursor fun tree words _ => Located tree words := by
  intro hended tree after hread
  obtain ⟨hleaf, rfl⟩ := leaf?_of_primary hread
  obtain ⟨hkind, -⟩ := spells_leaf hleaf
  refine ⟨[cursor.current], (hended.step hkind).1, ?_⟩
  unfold leaf? at hleaf
  split at hleaf
  · rename_i hnumber
    cases hleaf
    exact .number hnumber
  · rename_i hname
    cases hleaf
    exact .symbol hname
  · rename_i hstring
    cases hleaf
    exact .string hstring
  · contradiction

variable (hrecurse : Locates recurse)

include hrecurse

theorem takes_conversion
    (hkind : cursor.current.kind = .keyInt ∨ cursor.current.kind = .keyFloat) :
    Takes (conversion recurse) cursor fun tree words _ => Located tree words := by
  apply takes_advance rfl (by rcases hkind with h | h <;> rw [h] <;> decide)
  intro keyword behind hkeyword
  rw [← hkeyword] at hkind
  apply takes_expect (by decide)
  intro opening behind hopening
  apply Takes.bind (hrecurse .lowest behind)
  intro value words behind hvalue
  apply takes_expect (by decide)
  intro closing after hclosing
  apply takes_pure
  refine .conversion ?_ hopening hvalue hclosing
  rcases hkind with hint | hfloat
  · rw [if_pos hint, hint]
    rfl
  · rw [hfloat]
    rfl

theorem takes_create (hkind : cursor.current.kind = .keyCreateCoroutine) :
    Takes (create recurse) cursor fun tree words _ => Located tree words := by
  apply takes_advance hkind (by decide)
  intro keyword behind hkeyword
  apply Takes.bind (hrecurse .unary behind)
  intro target words after htarget
  cases target with
  | call callee arguments span =>
      apply takes_pure
      rw [List.append_nil]
      exact .create hkeyword htarget
  | _ =>
      intro _ found final hread
      simp at hread

theorem takes_lead {rule : LeadRule} (hrule : standard.lead? cursor.current.kind = some rule) :
    Takes (lead recurse rule) cursor fun tree words _ => Located tree words := by
  have hword : cursor.current.kind ≠ .eof := by
    intro heof
    rw [heof] at hrule
    contradiction
  cases rule with
  | primary => exact takes_primary
  | unary =>
      apply takes_advance rfl hword
      intro operator behind _
      apply Takes.bind (hrecurse .unary behind)
      intro operand words after hoperand
      apply takes_pure
      rw [List.append_nil]
      exact .unary hoperand
  | grouping =>
      have hkind : cursor.current.kind = .openParen := by
        revert hrule
        cases cursor.current.kind <;> decide
      apply takes_advance hkind (by decide)
      intro opening behind hopening
      apply Takes.bind (hrecurse .lowest behind)
      intro inner words behind hinner
      apply takes_expect (by decide)
      intro closing after hclosing
      apply takes_pure
      exact .grouping hopening hinner hclosing
  | conversion =>
      apply takes_conversion hrecurse
      revert hrule
      cases cursor.current.kind <;> decide
  | next =>
      have hkind : cursor.current.kind = .keyNext := by
        revert hrule
        cases cursor.current.kind <;> decide
      apply takes_advance hkind (by decide)
      intro keyword behind hkeyword
      apply Takes.bind (hrecurse .unary behind)
      intro coroutine words after hcoroutine
      apply takes_pure
      rw [List.append_nil]
      exact .next hkeyword hcoroutine
  | create =>
      apply takes_create hrecurse
      revert hrule
      cases cursor.current.kind <;> decide

/-! Behind an operand whose words have been taken. -/

variable {left : Expr} {leftWords : List Token} (hleft : Located left leftWords)

include hleft

theorem takes_binary (hword : cursor.current.kind ≠ .eof) (power : Power) :
    Takes (binary recurse left power) cursor fun tree words _ =>
      Located tree (leftWords ++ words) := by
  apply takes_advance rfl hword
  intro operator behind _
  apply Takes.bind (hrecurse power behind)
  intro right words after hright
  apply takes_pure
  rw [List.append_nil]
  exact .binary hleft hright

theorem takes_percent (hkind : cursor.current.kind = .percent) :
    Takes (percent recurse left) cursor fun tree words _ => Located tree (leftWords ++ words) := by
  apply takes_advance hkind (by decide)
  intro operator behind hoperator
  apply takes_look
  split
  · apply Takes.bind (hrecurse .multiplicative behind)
    intro right words after hright
    apply takes_pure
    rw [List.append_nil]
    exact .binary hleft hright
  · apply takes_pure
    exact .percent hleft hoperator

theorem takes_call (cursor : Cursor) :
    Takes (call recurse left) cursor fun tree words _ => Located tree (leftWords ++ words) := by
  cases hleft with
  | symbol hcallee =>
      apply Takes.bind (takes_arguments hrecurse cursor)
      intro arguments words after harguments
      apply takes_look
      apply takes_pure
      rw [List.append_nil]
      exact .call hcallee harguments
  | _ =>
      intro _ found after hread
      simp [call, Action.bind_apply] at hread

theorem takes_follow {rule : FollowRule}
    (hrule : standard.follow? cursor.current.kind = some rule) (power : Power) :
    Takes (follow recurse rule left power) cursor fun tree words _ =>
      Located tree (leftWords ++ words) := by
  have hword : cursor.current.kind ≠ .eof := by
    intro heof
    rw [heof] at hrule
    contradiction
  cases rule with
  | binary => exact takes_binary hrecurse hleft hword power
  | exponent => exact takes_binary hrecurse hleft hword .multiplicative
  | percent =>
      apply takes_percent hrecurse hleft
      revert hrule
      cases cursor.current.kind <;> decide
  | call => exact takes_call hrecurse hleft cursor

theorem takes_operators (power : Power) (bound : Nat) (cursor : Cursor) :
    Takes (standard.operators recurse power bound left) cursor fun tree words _ =>
      Located tree (leftWords ++ words) := by
  induction bound generalizing left leftWords cursor with
  | zero => exact takes_unexpected
  | succ bound ih =>
      rw [operators]
      apply takes_look
      split
      · apply takes_look
        cases hrule : standard.follow? cursor.current.kind with
        | none => exact takes_unexpected
        | some rule =>
            apply Takes.bind (takes_follow hrecurse hleft hrule _)
            intro extended words middle hextended
            apply (ih hextended middle).imp
            intro tree more after htree
            rwa [← List.append_assoc]
      · apply takes_pure
        rwa [List.append_nil]

end Rules

theorem locates_exprWithin (depth : Nat) : Locates (standard.exprWithin depth) := by
  induction depth with
  | zero => exact fun _ _ => takes_unexpected
  | succ depth ih =>
      intro power cursor
      rw [exprWithin]
      apply takes_look
      cases hrule : standard.lead? cursor.current.kind with
      | none => exact takes_unexpected
      | some rule =>
          apply Takes.bind (takes_lead ih hrule)
          intro left words middle hleft
          exact takes_operators ih hleft power depth middle

theorem locates_expr : Locates standard.expr := by
  intro power cursor
  exact locates_exprWithin cursor.remaining power cursor

/-! Statements and definitions hold their expressions in the order of their words. -/

/-- An expression of the loosest level, and its words. -/
def Placed (tree : Expr) (words : List Token) : Prop :=
  Stratified .logical tree ∧ Located tree words

theorem takes_placed (cursor : Cursor) :
    Takes (standard.expr .lowest) cursor fun tree words _ => Placed tree words := by
  intro hended tree after hread
  obtain ⟨words, hwords, hstratified, -⟩ := takes_expr cursor hended tree after hread
  obtain ⟨others, hothers, hlocated⟩ := locates_expr .lowest cursor hended tree after hread
  rw [List.append_cancel_right (hwords.symm.trans hothers)] at hwords
  exact ⟨others, hwords, hstratified, hlocated⟩

/-- The expressions of what is read stand among its words. -/
def Arranged {α : Type} (expressions : α → List Expr) (found : α) (words : List Token)
    (_ : Cursor) : Prop :=
  InOrder Placed (expressions found) words

theorem takes_assignment_arranged (start : Position) (cursor : Cursor) :
    Takes (assignment standard start) cursor (Arranged Stmt.expressions) := by
  rw [assignment]
  apply takes_expectBecause (by decide)
  intro name behind _
  apply takes_expect (by decide)
  intro equals behind _
  apply Takes.bind (takes_placed behind)
  intro value words behind hvalue
  apply takes_expect (by decide)
  intro semicolon after _
  apply takes_look
  apply takes_pure
  exact (InOrder.single hvalue).within ⟨[_, _], [_], rfl⟩

theorem takes_define_arranged (cursor : Cursor) :
    Takes (define standard) cursor (Arranged Stmt.expressions) := by
  rw [define_eq]
  apply takes_look
  apply takes_look
  split
  · rename_i hkeyword
    apply takes_advance hkeyword (by decide)
    intro keyword behind _
    apply (takes_assignment_arranged _ behind).imp
    intro stmt words after hstmt
    exact hstmt.behind [_]
  · exact takes_assignment_arranged _ cursor

section Statements

variable {recurse : Parser Stmt} {cursor : Cursor}

theorem takes_expression_arranged (cursor : Cursor) :
    Takes (expression standard) cursor (Arranged Stmt.expressions) := by
  rw [expression]
  apply Takes.bind (takes_placed cursor)
  intro value words behind hvalue
  apply takes_expect (by decide)
  intro semicolon after _
  apply takes_pure
  exact (InOrder.single hvalue).within ⟨[], [_], rfl⟩

theorem takes_returns_arranged (hcurrent : cursor.current.kind = .keyReturn) :
    Takes (returns standard) cursor (Arranged Stmt.expressions) := by
  rw [returns]
  apply takes_advance hcurrent (by decide)
  intro keyword behind _
  apply takes_look
  split
  · rename_i hsemicolon
    apply takes_advance hsemicolon (by decide)
    intro semicolon after _
    apply takes_look
    apply takes_pure
    exact .nil _
  · apply Takes.bind (takes_placed behind)
    intro value words behind hvalue
    apply takes_expect (by decide)
    intro semicolon after _
    apply takes_look
    apply takes_pure
    exact (InOrder.single hvalue).within ⟨[_], [_], rfl⟩

theorem takes_yields_arranged (hcurrent : cursor.current.kind = .keyYield) :
    Takes (yields standard) cursor (Arranged Stmt.expressions) := by
  rw [yields]
  apply takes_advance hcurrent (by decide)
  intro keyword behind _
  apply Takes.bind (takes_placed behind)
  intro value words behind hvalue
  apply takes_expect (by decide)
  intro semicolon after _
  apply takes_look
  apply takes_pure
  exact (InOrder.single hvalue).within ⟨[_], [_], rfl⟩

theorem takes_print_arranged (hcurrent : cursor.current.kind = .keyPrint) :
    Takes (print standard) cursor (Arranged Stmt.expressions) := by
  have hitem (cursor : Cursor) : Takes (standard.expr .lowest) cursor fun tree words _ =>
      True ∧ Placed tree words := by
    apply (takes_placed cursor).imp
    intro tree words after htree
    exact ⟨trivial, htree⟩
  rw [print]
  apply takes_advance hcurrent (by decide)
  intro keyword behind _
  apply Takes.bind (takes_parenthesised hitem behind)
  intro arguments words behind harguments
  apply takes_expect (by decide)
  intro semicolon after _
  apply takes_look
  apply takes_pure
  exact harguments.2.inOrder.within ⟨[_], [_], rfl⟩

variable (hrecurse : ∀ cursor, Takes recurse cursor (Arranged Stmt.expressions))

include hrecurse

theorem takes_branch_arranged (hcurrent : cursor.current.kind = .keyIf) :
    Takes (branch standard recurse) cursor (Arranged Stmt.expressions) := by
  rw [branch]
  apply takes_advance hcurrent (by decide)
  intro keyword behind _
  apply takes_expect (by decide)
  intro opening behind _
  apply Takes.bind (takes_placed behind)
  intro condition words behind hcondition
  apply takes_expect (by decide)
  intro closing behind _
  apply Takes.bind (hrecurse behind)
  intro thenBody thenWords middle hthen
  have hcondition : InOrder Placed [condition] (keyword :: opening :: words ++ [closing]) :=
    (InOrder.single hcondition).within ⟨[_, _], [_], rfl⟩
  apply takes_look
  split
  · rename_i helse
    apply takes_advance helse (by decide)
    intro otherwise behind _
    apply Takes.bind (hrecurse behind)
    intro elseBody elseWords after helse
    apply takes_look
    apply takes_pure
    have hbranches := hcondition.append (hthen.append (helse.behind [otherwise]))
    simpa [Arranged, Stmt.expressions] using hbranches
  · apply takes_look
    apply takes_pure
    simpa [Arranged, Stmt.expressions] using hcondition.append hthen

theorem takes_statements_arranged (bound : Nat) (cursor : Cursor) :
    Takes (statements recurse bound) cursor (Arranged Stmt.expressionsAll) := by
  induction bound generalizing cursor with
  | zero => exact takes_unexpected
  | succ bound ih =>
      rw [statements]
      apply takes_look
      split
      · exact takes_pure (.nil _)
      · exact takes_unexpectedBecause
      · apply Takes.bind (hrecurse cursor)
        intro first words middle hfirst
        apply Takes.bind (ih middle)
        intro others more after hothers
        apply takes_pure
        rw [List.append_nil]
        exact hfirst.append hothers

theorem takes_block_arranged (cursor : Cursor) :
    Takes (block recurse) cursor (Arranged fun found => Stmt.expressionsAll found.1) := by
  rw [block]
  apply takes_expect (by decide)
  intro opening inside _
  apply Takes.bind
    (takes_remaining (takes_statements_arranged hrecurse inside.remaining inside))
  intro body words behind hbody
  apply takes_expect (by decide)
  intro closing after _
  apply takes_pure
  exact InOrder.within hbody ⟨[_], [_], rfl⟩

theorem takes_stmtBy_arranged {rule : StmtRule}
    (hrule : standard.stmt? cursor.current.kind = some rule) :
    Takes (stmtBy standard recurse rule) cursor (Arranged Stmt.expressions) := by
  simp only [standard] at hrule
  split at hrule
  · cases hrule
    rw [stmtBy]
    apply Takes.bind (takes_block_arranged hrecurse cursor)
    intro found words after hbody
    apply takes_pure
    rw [List.append_nil]
    exact hbody
  · rename_i hcurrent
    cases hrule
    exact takes_branch_arranged hrecurse hcurrent
  · rename_i hcurrent
    cases hrule
    exact takes_returns_arranged hcurrent
  · rename_i hcurrent
    cases hrule
    exact takes_yields_arranged hcurrent
  · rename_i hcurrent
    cases hrule
    exact takes_print_arranged hcurrent
  · cases hrule
    rw [stmtBy, localDefine]
    apply takes_look
    apply takes_look
    split
    · exact takes_define_arranged cursor
    · exact takes_unexpectedBecause
  · contradiction

end Statements

theorem takes_stmtWithin_arranged (depth : Nat) (cursor : Cursor) :
    Takes (stmtWithin standard depth) cursor (Arranged Stmt.expressions) := by
  induction depth generalizing cursor with
  | zero => exact takes_unexpected
  | succ depth ih =>
      rw [stmtWithin]
      apply takes_look
      cases hrule : standard.stmt? cursor.current.kind with
      | some rule => exact takes_stmtBy_arranged ih hrule
      | none =>
          apply takes_look
          apply takes_look
          split
          · exact takes_define_arranged cursor
          · exact takes_expression_arranged cursor

theorem takes_stmt_arranged (cursor : Cursor) :
    Takes standard.stmt cursor (Arranged Stmt.expressions) := by
  apply takes_remaining
  exact takes_stmtWithin_arranged cursor.remaining cursor

theorem takes_body?_arranged (cursor : Cursor) :
    Takes (body? standard.stmt) cursor
      (Arranged fun found => found.elim [] fun body => Stmt.expressionsAll body.1) := by
  rw [body?]
  apply takes_look
  split
  · rename_i hsemicolon
    apply takes_advance hsemicolon (by decide)
    intro semicolon after _
    exact takes_pure (.nil _)
  · apply Takes.bind (takes_block_arranged takes_stmt_arranged cursor)
    intro found words after hbody
    apply takes_pure
    rw [List.append_nil]
    exact hbody

theorem takes_function_arranged {cursor : Cursor} (hcurrent : cursor.current.kind = .keyDef) :
    Takes (function standard.stmt) cursor (Arranged Stmt.expressions) := by
  rw [function]
  apply takes_advance hcurrent (by decide)
  intro keyword behind _
  apply takes_expect (by decide)
  intro name behind _
  apply Takes.bind (takes_parameters behind)
  intro items words behind _
  split
  · apply Takes.bind (takes_block_arranged takes_stmt_arranged behind)
    intro found bodyWords after hbody
    apply takes_look
    apply takes_pure
    rw [List.append_nil]
    exact hbody.behind (keyword :: name :: words)
  · apply Takes.bind (takes_body?_arranged behind)
    intro found bodyWords after hbody
    cases found with
    | none =>
        apply takes_look
        exact takes_pure (.nil _)
    | some found =>
        apply takes_look
        apply takes_pure
        rw [List.append_nil]
        exact hbody.behind (keyword :: name :: words)

theorem takes_coroutine_arranged {cursor : Cursor} (hcurrent : cursor.current.kind = .keyDef) :
    Takes (coroutine standard.stmt) cursor (Arranged Stmt.expressions) := by
  rw [coroutine]
  apply takes_advance hcurrent (by decide)
  intro keyword behind _
  apply takes_expect (by decide)
  intro word behind _
  apply takes_expectBecause (by decide)
  intro name behind _
  apply Takes.bind (takes_parameters behind)
  intro items words behind _
  apply Takes.bind (takes_body?_arranged behind)
  intro found bodyWords after hbody
  cases found with
  | none =>
      apply takes_look
      exact takes_pure (.nil _)
  | some found =>
      apply takes_look
      apply takes_pure
      rw [List.append_nil]
      exact hbody.behind (keyword :: word :: name :: words)

theorem takes_item_arranged (cursor : Cursor) :
    Takes standard.item cursor (Arranged Stmt.expressions) := by
  rw [Grammar.item, itemWith]
  apply takes_look
  apply takes_look
  apply takes_look
  split
  · rename_i hcurrent _
    exact takes_coroutine_arranged hcurrent
  · rename_i hcurrent _ _
    exact takes_function_arranged hcurrent
  · exact takes_define_arranged cursor
  · exact takes_define_arranged cursor
  · exact takes_unexpectedBecause

theorem takes_items_arranged (bound : Nat) (cursor : Cursor) :
    Takes (items standard bound) cursor (Arranged Stmt.expressionsAll) := by
  induction bound generalizing cursor with
  | zero => exact takes_unexpected
  | succ bound ih =>
      rw [items]
      apply takes_look
      split
      · exact takes_pure (.nil _)
      · apply Takes.bind (takes_item_arranged cursor)
        intro first words middle hfirst
        apply Takes.bind (ih middle)
        intro others more after hothers
        apply takes_pure
        rw [List.append_nil]
        exact hfirst.append hothers

/-- The expressions of a program that is read stand among its words, in their order, each with
the span of its own words. -/
theorem takes_program_arranged (file : String) (cursor : Cursor) :
    Takes (standard.program file) cursor (Arranged Program.expressions) := by
  rw [Grammar.program]
  apply Takes.bind (takes_remaining (takes_items_arranged cursor.remaining cursor))
  intro list words after hlist
  apply takes_look
  apply takes_pure
  rw [List.append_nil]
  exact hlist

end Grammar

end Coroscript
