import Coroscript.Grammar.Stmt
import Coroscript.Proofs.Matching.Steps
import Coroscript.Proofs.Matching.Trees
import Coroscript.Proofs.Grammar.ReadBack

namespace Coroscript

/-! Readers at matching places read matching trees, or fail alike. -/

namespace Cursor

/-- The tokens from the current one on match; what was before does not count. -/
def Matches (positions : Position → Position → Prop) (left right : Cursor) : Prop :=
  List.Forall₂ (Token.Matches positions) left.tokens right.tokens

namespace Matches

variable {positions : Position → Position → Prop} {left right : Cursor}

theorem current (hmatches : left.Matches positions right) :
    left.current.Matches positions right.current := by
  cases hmatches with
  | cons hcurrent _ => exact hcurrent

theorem kind_eq (hmatches : left.Matches positions right) :
    left.current.kind = right.current.kind :=
  hmatches.current.word.1

theorem value_eq (hmatches : left.Matches positions right) :
    left.current.value = right.current.value :=
  hmatches.current.word.2

theorem remaining_eq (hmatches : left.Matches positions right) :
    left.remaining = right.remaining :=
  List.Forall₂.length_eq hmatches

theorem advance (hmatches : left.Matches positions right) :
    left.advance.Matches positions right.advance := by
  obtain ⟨current, rest, ending⟩ := left
  obtain ⟨current', rest', ending'⟩ := right
  cases hmatches with
  | cons hcurrent hrest =>
      cases hrest with
      | nil => exact .cons hcurrent .nil
      | cons hnext hrest => exact .cons hnext hrest

theorem kinds_eq (hmatches : left.Matches positions right) :
    left.tokens.map Token.kind = right.tokens.map Token.kind := by
  rw [← List.forall₂_eq_eq_eq, List.forall₂_map_left_iff, List.forall₂_map_right_iff]
  exact List.Forall₂.imp (fun _ _ htoken => htoken.word.1) hmatches

theorem peek_kind_eq (hmatches : left.Matches positions right) (count : Nat) :
    (left.peek count).kind = (right.peek count).kind := by
  have hkind (cursor : Cursor) : (cursor.peek count).kind =
      (cursor.tokens.map Token.kind)[count]?.getD
        ((cursor.tokens.map Token.kind).getLastD .eof) := by
    rw [List.getElem?_map, peek, tokens, List.map_cons, List.getLastD_cons,
      List.getLastD_map, Option.getD_map]
  rw [hkind, hkind, hmatches.kinds_eq]

end Matches

end Cursor

namespace Parser

variable {α α' : Type} {positions : Position → Position → Prop}

abbrev Relates (positions : Position → Position → Prop) (results : α → α' → Prop)
    (left : Parser α) (right : Parser α') : Prop :=
  Action.Relates (Cursor.Matches positions) (Cursor.Matches positions) results
    (Error.Matches positions False) left right

theorem relates_kind : Relates positions Eq kind kind :=
  .gets fun _ _ hmatches => hmatches.kind_eq

theorem relates_peekKind (count : Nat) :
    Relates positions Eq (peekKind count) (peekKind count) :=
  .gets fun _ _ hmatches => hmatches.peek_kind_eq count

theorem relates_position : Relates positions positions position position :=
  .gets fun _ _ hmatches => hmatches.current.start

theorem relates_previousEnd :
    Relates positions (fun _ _ => True) previousEnd previousEnd :=
  .gets fun _ _ _ => trivial

theorem relates_advance : Relates positions (Token.Matches positions) advance advance :=
  fun _ _ hmatches => ⟨.ok hmatches.current, fun _ _ => hmatches.advance⟩

variable {results : α → α' → Prop}

theorem relates_unexpected : Relates positions results unexpected unexpected := by
  intro left right hmatches
  refine ⟨.error ⟨?_, trivial, hmatches.current.start⟩, fun _ herror => nomatch herror⟩
  exact congrArg Cause.unexpectedToken hmatches.value_eq

theorem relates_unexpectedBecause (message : String) :
    Relates positions results (unexpectedBecause message) (unexpectedBecause message) := by
  intro left right hmatches
  refine ⟨.error ⟨?_, trivial, hmatches.current.start⟩, fun _ herror => nomatch herror⟩
  exact congrArg (Cause.unexpectedTokenDetailed · message) hmatches.value_eq

theorem relates_expect (kind : TokenKind) :
    Relates positions (Token.Matches positions) (expect kind) (expect kind) := by
  intro left right hmatches
  unfold expect
  rw [hmatches.kind_eq]
  split
  · exact relates_advance left right hmatches
  · exact relates_unexpected left right hmatches

theorem relates_expectBecause (kind : TokenKind) (message : String) :
    Relates positions (Token.Matches positions) (expectBecause kind message)
      (expectBecause kind message) := by
  intro left right hmatches
  unfold expectBecause
  rw [hmatches.kind_eq]
  split
  · exact relates_advance left right hmatches
  · exact relates_unexpectedBecause message left right hmatches

/-- Matching cursors have as many tokens left. -/
theorem relates_remaining {reader : Nat → Parser α} {reader' : Nat → Parser α'}
    (hreader : ∀ bound, Relates positions results (reader bound) (reader' bound)) :
    Relates positions results (fun cursor => reader cursor.remaining cursor)
      (fun cursor => reader' cursor.remaining cursor) := by
  intro left right hmatches
  beta_reduce
  rw [hmatches.remaining_eq]
  exact hreader right.remaining left right hmatches

variable {item : Parser α} {item' : Parser α'}

theorem relates_separated (hitem : Relates positions results item item') (bound : Nat) :
    Relates positions (List.Forall₂ results) (separated item bound)
      (separated item' bound) := by
  induction bound with
  | zero => exact relates_unexpected
  | succ bound ih =>
      rw [separated, separated]
      apply hitem.bind
      intro first first' hfirst
      apply relates_kind.bind
      intro kind kind' hkind
      subst hkind
      split
      · apply relates_advance.bind
        intro _ _ _
        apply ih.bind
        intro others others' hothers
        exact .pure (.cons hfirst hothers)
      · exact .pure (.cons hfirst .nil)

theorem relates_parenthesised (hitem : Relates positions results item item') :
    Relates positions (List.Forall₂ results) (parenthesised item) (parenthesised item') := by
  apply (relates_expect _).bind
  intro _ _ _
  apply relates_kind.bind
  intro kind kind' hkind
  subst hkind
  split
  · apply relates_advance.bind
    intro _ _ _
    exact .pure .nil
  · apply (relates_remaining (relates_separated hitem)).bind
    intro items items' hitems
    apply (relates_expect _).bind
    intro _ _ _
    exact .pure hitems

end Parser

namespace Grammar

open Coroscript.Parser

variable {positions : Position → Position → Prop}

/-! Expressions, over a reader of their operands. -/

section Expressions

variable {recurse : Power → Parser Expr}
  (hrecurse : ∀ power,
    Relates positions (Expr.Matches positions) (recurse power) (recurse power))

theorem relates_primary : Relates positions (Expr.Matches positions) primary primary := by
  apply Action.Relates.bind (.gets fun _ _ hmatches => hmatches.current)
  intro token token' htoken
  rw [htoken.word.1, htoken.word.2]
  split
  · apply relates_advance.bind
    intro _ _ _
    exact .pure (.number htoken.start)
  · apply relates_advance.bind
    intro _ _ _
    exact .pure (.symbol htoken.start)
  · apply relates_advance.bind
    intro _ _ _
    exact .pure (.string htoken.start)
  · exact relates_unexpected

include hrecurse

theorem relates_unary :
    Relates positions (Expr.Matches positions) (unary recurse) (unary recurse) := by
  apply relates_advance.bind
  intro operator operator' hoperator
  apply (hrecurse .unary).bind
  intro operand operand' hoperand
  exact .pure (.unary hoperator.word hoperand hoperator.start)

theorem relates_grouping :
    Relates positions (Expr.Matches positions) (grouping recurse) (grouping recurse) := by
  apply relates_advance.bind
  intro opening opening' hopening
  apply (hrecurse .lowest).bind
  intro inner inner' hinner
  apply (relates_expect _).bind
  intro _ _ _
  exact .pure (.grouping hinner hopening.start)

theorem relates_conversion :
    Relates positions (Expr.Matches positions) (conversion recurse) (conversion recurse) := by
  apply relates_advance.bind
  intro keyword keyword' hkeyword
  apply (relates_expect _).bind
  intro _ _ _
  apply (hrecurse .lowest).bind
  intro value value' hvalue
  apply (relates_expect _).bind
  intro _ _ _
  rw [hkeyword.word.1]
  exact .pure (.conversion hvalue hkeyword.start)

theorem relates_next :
    Relates positions (Expr.Matches positions) (next recurse) (next recurse) := by
  apply relates_advance.bind
  intro keyword keyword' hkeyword
  apply (hrecurse .unary).bind
  intro coroutine coroutine' hcoroutine
  exact .pure (.next hcoroutine hkeyword.start)

theorem relates_create :
    Relates positions (Expr.Matches positions) (create recurse) (create recurse) := by
  apply relates_advance.bind
  intro keyword keyword' hkeyword
  apply (hrecurse .unary).bind
  intro target target' htarget
  cases htarget with
  | call harguments hstart => exact .pure (.create harguments hstart hkeyword.start)
  | number hstart | symbol hstart | string hstart | binary _ _ _ hstart | unary _ _ hstart
  | percent _ hstart | grouping _ hstart | conversion _ hstart | next _ hstart
  | create _ _ hstart => exact .fail ⟨rfl, trivial, hstart⟩

theorem relates_binary {left left' : Expr} (hleft : left.Matches positions left')
    (power : Power) :
    Relates positions (Expr.Matches positions) (binary recurse left power)
      (binary recurse left' power) := by
  apply relates_advance.bind
  intro operator operator' hoperator
  apply (hrecurse power).bind
  intro right right' hright
  exact .pure (.binary hleft hoperator.word hright hleft.start)

theorem relates_percent {left left' : Expr} (hleft : left.Matches positions left') :
    Relates positions (Expr.Matches positions) (percent recurse left)
      (percent recurse left') := by
  apply relates_advance.bind
  intro operator operator' hoperator
  apply relates_kind.bind
  intro kind kind' hkind
  subst hkind
  split
  · apply (hrecurse .multiplicative).bind
    intro right right' hright
    exact .pure (.binary hleft hoperator.word hright hleft.start)
  · exact .pure (.percent hleft hleft.start)

theorem relates_call {left left' : Expr} (hleft : left.Matches positions left') :
    Relates positions (Expr.Matches positions) (call recurse left) (call recurse left') := by
  have huncallable {start start' : Position} (hstart : positions start start') :
      Relates positions (Expr.Matches positions)
        (Action.gets Cursor.current >>= fun token => Action.fail
          ⟨.unexpectedTokenDetailed token.value "only named functions can be called", start⟩)
        (Action.gets Cursor.current >>= fun token => Action.fail
          ⟨.unexpectedTokenDetailed token.value "only named functions can be called",
            start'⟩) := by
    apply Action.Relates.bind (.gets fun _ _ hmatches => hmatches.current)
    intro token token' htoken
    rw [htoken.word.2]
    exact .fail ⟨rfl, trivial, hstart⟩
  cases hleft with
  | symbol hstart =>
      apply (relates_parenthesised (hrecurse .lowest)).bind
      intro arguments arguments' harguments
      apply relates_previousEnd.bind
      intro _ _ _
      exact .pure (.call harguments hstart)
  | number hstart | string hstart | binary _ _ _ hstart | unary _ _ hstart
  | percent _ hstart | grouping _ hstart | conversion _ hstart | call _ hstart
  | next _ hstart | create _ _ hstart => exact huncallable hstart

theorem relates_lead (rule : LeadRule) :
    Relates positions (Expr.Matches positions) (lead recurse rule) (lead recurse rule) := by
  cases rule with
  | primary => exact relates_primary
  | unary => exact relates_unary hrecurse
  | grouping => exact relates_grouping hrecurse
  | conversion => exact relates_conversion hrecurse
  | next => exact relates_next hrecurse
  | create => exact relates_create hrecurse

theorem relates_follow (rule : FollowRule) {left left' : Expr}
    (hleft : left.Matches positions left') (power : Power) :
    Relates positions (Expr.Matches positions) (follow recurse rule left power)
      (follow recurse rule left' power) := by
  cases rule with
  | binary => exact relates_binary hrecurse hleft power
  | exponent => exact relates_binary hrecurse hleft .multiplicative
  | percent => exact relates_percent hrecurse hleft
  | call => exact relates_call hrecurse hleft

theorem relates_operators (grammar : Grammar) (power : Power) (bound : Nat)
    {left left' : Expr} (hleft : left.Matches positions left') :
    Relates positions (Expr.Matches positions) (operators grammar recurse power bound left)
      (operators grammar recurse power bound left') := by
  induction bound generalizing left left' with
  | zero => exact relates_unexpected
  | succ bound ih =>
      rw [operators, operators]
      have hpower : Relates positions Eq (Action.gets grammar.powerAt)
          (Action.gets grammar.powerAt) := by
        apply Action.Relates.gets
        intro cursor cursor' hmatches
        simp only [powerAt, hmatches.kind_eq, hmatches.peek_kind_eq]
      apply hpower.bind
      intro operatorPower operatorPower' hoperator
      subst hoperator
      split
      · apply relates_kind.bind
        intro kind kind' hkind
        subst hkind
        split
        · exact relates_unexpected
        · apply (relates_follow hrecurse _ hleft _).bind
          intro extended extended' hextended
          exact ih hextended
      · exact .pure hleft

end Expressions

theorem relates_exprWithin (grammar : Grammar) (depth : Nat) (power : Power) :
    Relates positions (Expr.Matches positions) (exprWithin grammar depth power)
      (exprWithin grammar depth power) := by
  induction depth generalizing power with
  | zero => exact relates_unexpected
  | succ depth ih =>
      rw [exprWithin]
      apply relates_kind.bind
      intro kind kind' hkind
      subst hkind
      split
      · exact relates_unexpected
      · apply (relates_lead ih _).bind
        intro left left' hleft
        exact relates_operators ih grammar power depth hleft

theorem relates_expr (grammar : Grammar) (power : Power) :
    Relates positions (Expr.Matches positions) (grammar.expr power) (grammar.expr power) :=
  relates_remaining fun depth => relates_exprWithin grammar depth power

/-! Statements. -/

theorem relates_assignment (grammar : Grammar) {start start' : Position}
    (hstart : positions start start') :
    Relates positions
      (fun left right => ∃ name value value' span span', left = .define name value span ∧
        right = .define name value' span' ∧ value.Matches positions value' ∧
          positions span.start span'.start)
      (assignment grammar start) (assignment grammar start') := by
  apply (relates_expectBecause _ _).bind
  intro name name' hname
  apply (relates_expect _).bind
  intro _ _ _
  apply (relates_expr grammar .lowest).bind
  intro value value' hvalue
  apply (relates_expect _).bind
  intro _ _ _
  apply relates_previousEnd.bind
  intro _ _ _
  rw [hname.word.2]
  exact .pure ⟨_, value, value', _, _, rfl, rfl, hvalue, hstart⟩

/-- A definition of a variable is one in a body and at the top level. -/
theorem relates_define (grammar : Grammar) {results : Stmt → Stmt → Prop}
    (hresults : ∀ {name value value' span span'}, Expr.Matches positions value value' →
      positions span.start span'.start →
        results (.define name value span) (.define name value' span')) :
    Relates positions results (define grammar) (define grammar) := by
  have hassignment {start start' : Position} (hstart : positions start start') :
      Relates positions results (assignment grammar start) (assignment grammar start') := by
    apply (relates_assignment grammar hstart).mono
    intro left right h
    obtain ⟨name, value, value', span, span', rfl, rfl, hvalue, hspan⟩ := h
    exact hresults hvalue hspan
  rw [define_eq]
  apply relates_position.bind
  intro start start' hstart
  apply relates_kind.bind
  intro kind kind' hkind
  subst hkind
  split
  · apply relates_advance.bind
    intro _ _ _
    exact hassignment hstart
  · exact hassignment hstart

section Statements

variable (grammar : Grammar)

theorem relates_localDefine :
    Relates positions (Stmt.Matches positions False) (localDefine grammar)
      (localDefine grammar) := by
  apply (relates_peekKind 1).bind
  intro first first' hfirst
  apply (relates_peekKind 2).bind
  intro second second' hsecond
  subst hfirst hsecond
  split
  · exact relates_define grammar .define
  · exact relates_unexpectedBecause _

theorem relates_returns :
    Relates positions (Stmt.Matches positions False) (returns grammar) (returns grammar) := by
  apply relates_advance.bind
  intro keyword keyword' hkeyword
  apply relates_kind.bind
  intro kind kind' hkind
  subst hkind
  split
  · apply relates_advance.bind
    intro _ _ _
    apply relates_previousEnd.bind
    intro _ _ _
    exact .pure (.returns .none hkeyword.start)
  · apply (relates_expr grammar .lowest).bind
    intro value value' hvalue
    apply (relates_expect _).bind
    intro _ _ _
    apply relates_previousEnd.bind
    intro _ _ _
    exact .pure (.returns (.some hvalue) hkeyword.start)

theorem relates_yields :
    Relates positions (Stmt.Matches positions False) (yields grammar) (yields grammar) := by
  apply relates_advance.bind
  intro keyword keyword' hkeyword
  apply (relates_expr grammar .lowest).bind
  intro value value' hvalue
  apply (relates_expect _).bind
  intro _ _ _
  apply relates_previousEnd.bind
  intro _ _ _
  exact .pure (.yields hvalue hkeyword.start)

theorem relates_print :
    Relates positions (Stmt.Matches positions False) (print grammar) (print grammar) := by
  apply relates_advance.bind
  intro keyword keyword' hkeyword
  apply (relates_parenthesised (relates_expr grammar .lowest)).bind
  intro arguments arguments' harguments
  apply (relates_expect _).bind
  intro _ _ _
  apply relates_previousEnd.bind
  intro _ _ _
  exact .pure (.print harguments hkeyword.start)

theorem relates_expression :
    Relates positions (Stmt.Matches positions False) (expression grammar)
      (expression grammar) := by
  apply (relates_expr grammar .lowest).bind
  intro value value' hvalue
  apply (relates_expect _).bind
  intro _ _ _
  exact .pure (.expression hvalue hvalue.start)

theorem relates_parameters :
    Relates positions (List.Forall₂ (Parameter.Matches positions)) parameters parameters := by
  apply relates_parenthesised
  apply (relates_expectBecause _ _).bind
  intro name name' hname
  exact .pure ⟨hname.word.2, hname.start⟩

variable {recurse : Parser Stmt}
  (hrecurse : Relates positions (Stmt.Matches positions False) recurse recurse)
include hrecurse

theorem relates_branch :
    Relates positions (Stmt.Matches positions False) (branch grammar recurse)
      (branch grammar recurse) := by
  apply relates_advance.bind
  intro keyword keyword' hkeyword
  apply (relates_expect _).bind
  intro _ _ _
  apply (relates_expr grammar .lowest).bind
  intro condition condition' hcondition
  apply (relates_expect _).bind
  intro _ _ _
  apply hrecurse.bind
  intro thenBody thenBody' hthen
  apply relates_kind.bind
  intro kind kind' hkind
  subst hkind
  split
  · apply relates_advance.bind
    intro _ _ _
    apply hrecurse.bind
    intro elseBody elseBody' helse
    apply relates_previousEnd.bind
    intro _ _ _
    exact .pure (.ifElse hcondition hthen helse hkeyword.start)
  · apply relates_previousEnd.bind
    intro _ _ _
    exact .pure (.ifThen hcondition hthen hkeyword.start)

theorem relates_statements (bound : Nat) :
    Relates positions (List.Forall₂ (Stmt.Matches positions False)) (statements recurse bound)
      (statements recurse bound) := by
  induction bound with
  | zero => exact relates_unexpected
  | succ bound ih =>
      rw [statements]
      apply relates_kind.bind
      intro kind kind' hkind
      subst hkind
      split
      · exact .pure .nil
      · exact relates_unexpectedBecause _
      · apply hrecurse.bind
        intro first first' hfirst
        apply ih.bind
        intro others others' hothers
        exact .pure (.cons hfirst hothers)

theorem relates_block :
    Relates positions
      (fun left right => List.Forall₂ (Stmt.Matches positions False) left.1 right.1 ∧
        positions left.2.start right.2.start)
      (block recurse) (block recurse) := by
  apply (relates_expect _).bind
  intro opening opening' hopening
  apply (relates_remaining (relates_statements hrecurse)).bind
  intro body body' hbody
  apply (relates_expect _).bind
  intro _ _ _
  exact .pure ⟨hbody, hopening.start⟩

theorem relates_body? :
    Relates positions
      (Option.Rel fun left right => List.Forall₂ (Stmt.Matches positions False) left.1 right.1)
      (body? recurse) (body? recurse) := by
  apply relates_kind.bind
  intro kind kind' hkind
  subst hkind
  split
  · apply relates_advance.bind
    intro _ _ _
    exact .pure .none
  · apply (relates_block hrecurse).bind
    intro found found' hfound
    exact .pure (.some hfound.1)

theorem relates_function :
    Relates positions (Stmt.MatchesItem positions False) (function recurse)
      (function recurse) := by
  apply relates_advance.bind
  intro keyword keyword' hkeyword
  apply (relates_expect _).bind
  intro name name' hname
  apply relates_parameters.bind
  intro parameters parameters' hparameters
  rw [hname.word.2]
  split
  · apply (relates_block hrecurse).bind
    intro found found' hfound
    apply relates_previousEnd.bind
    intro _ _ _
    exact .pure (.entryPoint hfound.1 hkeyword.start)
  · apply (relates_body? hrecurse).bind
    intro body? body?' hbody
    cases hbody with
    | none =>
        apply relates_previousEnd.bind
        intro _ _ _
        exact .pure (.forwardFunction hparameters hkeyword.start)
    | some hbody =>
        apply relates_previousEnd.bind
        intro _ _ _
        exact .pure (.function hparameters hbody hkeyword.start)

theorem relates_coroutine :
    Relates positions (Stmt.MatchesItem positions False) (coroutine recurse)
      (coroutine recurse) := by
  apply relates_advance.bind
  intro keyword keyword' hkeyword
  apply (relates_expect _).bind
  intro _ _ _
  apply (relates_expectBecause _ _).bind
  intro name name' hname
  apply relates_parameters.bind
  intro parameters parameters' hparameters
  apply (relates_body? hrecurse).bind
  intro body? body?' hbody
  rw [hname.word.2]
  cases hbody with
  | none =>
      apply relates_previousEnd.bind
      intro _ _ _
      exact .pure (.forwardCoroutine hparameters hkeyword.start)
  | some hbody =>
      apply relates_previousEnd.bind
      intro _ _ _
      exact .pure (.coroutine hparameters hbody hkeyword.start)

theorem relates_itemWith :
    Relates positions (Stmt.MatchesItem positions False) (itemWith grammar recurse)
      (itemWith grammar recurse) := by
  apply relates_kind.bind
  intro first first' hfirst
  apply (relates_peekKind 1).bind
  intro second second' hsecond
  apply (relates_peekKind 2).bind
  intro third third' hthird
  subst hfirst hsecond hthird
  split
  · exact relates_coroutine hrecurse
  · exact relates_function hrecurse
  · exact relates_define grammar .define
  · exact relates_define grammar .define
  · exact relates_unexpectedBecause _

end Statements

/-- No token starts a definition of a callable in a body. -/
theorem relates_stmtBy {recurse : Parser Stmt} {kind : TokenKind} {rule : StmtRule}
    (hrecurse : Relates positions (Stmt.Matches positions False) recurse recurse)
    (hrule : standard.stmt? kind = some rule) :
    Relates positions (Stmt.Matches positions False) (stmtBy standard recurse rule)
      (stmtBy standard recurse rule) := by
  simp only [standard] at hrule
  split at hrule
  · cases hrule
    apply (relates_block hrecurse).bind
    intro found found' hfound
    exact .pure (.block hfound.1 hfound.2)
  · cases hrule
    exact relates_branch standard hrecurse
  · cases hrule
    exact relates_returns standard
  · cases hrule
    exact relates_yields standard
  · cases hrule
    exact relates_print standard
  · cases hrule
    exact relates_localDefine standard
  · contradiction

theorem relates_stmtWithin (depth : Nat) :
    Relates positions (Stmt.Matches positions False) (stmtWithin standard depth)
      (stmtWithin standard depth) := by
  induction depth with
  | zero => exact relates_unexpected
  | succ depth ih =>
      rw [stmtWithin]
      apply relates_kind.bind
      intro kind kind' hkind
      subst hkind
      cases hrule : standard.stmt? kind with
      | some rule => exact relates_stmtBy ih hrule
      | none =>
          apply relates_kind.bind
          intro first first' hfirst
          apply (relates_peekKind 1).bind
          intro second second' hsecond
          subst hfirst hsecond
          split
          · exact relates_define standard .define
          · exact relates_expression standard

theorem relates_stmt :
    Relates positions (Stmt.Matches positions False) standard.stmt standard.stmt :=
  relates_remaining relates_stmtWithin

theorem relates_items (bound : Nat) :
    Relates positions (List.Forall₂ (Stmt.MatchesItem positions False)) (items standard bound)
      (items standard bound) := by
  induction bound with
  | zero => exact relates_unexpected
  | succ bound ih =>
      rw [items]
      apply relates_kind.bind
      intro kind kind' hkind
      subst hkind
      split
      · exact .pure .nil
      · apply (relates_itemWith standard relates_stmt).bind
        intro first first' hfirst
        apply ih.bind
        intro others others' hothers
        exact .pure (.cons hfirst hothers)

theorem relates_program (file file' : String) :
    Relates positions (Program.Matches positions False) (standard.program file)
      (standard.program file') := by
  apply (relates_remaining relates_items).bind
  intro items items' hitems
  apply relates_position.bind
  intro stop stop' hstop
  exact .pure ⟨hitems, hstop⟩

end Grammar

end Coroscript
