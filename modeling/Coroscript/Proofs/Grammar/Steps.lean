import Coroscript.Proofs.Grammar.Spelling

namespace Coroscript

/-! Single steps of reading, seen through the tokens that are left. -/

namespace Cursor

theorem remaining_eq_length (cursor : Cursor) : cursor.remaining = cursor.tokens.length :=
  rfl

theorem current_eq {cursor : Cursor} {token : Token} {rest : List Token}
    (htokens : cursor.tokens = token :: rest) : cursor.current = token :=
  (List.cons.inj htokens).1

theorem tokens_advance {cursor : Cursor} {token : Token} {rest : List Token}
    (htokens : cursor.tokens = token :: rest) (hrest : rest ≠ []) :
    cursor.advance.tokens = rest := by
  have hcursor : cursor.rest = rest := (List.cons.inj htokens).2
  cases rest with
  | nil => contradiction
  | cons next others => simp [advance, hcursor, tokens]

end Cursor

namespace Parser

theorem advance_ok {cursor : Cursor} {token : Token} {rest : List Token}
    (htokens : cursor.tokens = token :: rest) :
    advance cursor = (.ok token, cursor.advance) := by
  rw [advance, Cursor.current_eq htokens]

theorem expect_ok {cursor : Cursor} {token : Token} {rest : List Token} {kind : TokenKind}
    (htokens : cursor.tokens = token :: rest) (hkind : token.kind = kind) :
    expect kind cursor = (.ok token, cursor.advance) := by
  rw [expect, Cursor.current_eq htokens, if_pos hkind, advance_ok htokens]

theorem parenthesised_ok {α : Type} {item : Parser α} {cursor middle after behind : Cursor}
    {opening closing : Token} {items : List α}
    (hopening : expect .openParen cursor = (.ok opening, middle))
    (hkind : middle.current.kind ≠ .closeParen)
    (hitems : separated item middle.remaining middle = (.ok items, after))
    (hclosing : expect .closeParen after = (.ok closing, behind)) :
    parenthesised item cursor = (.ok items, behind) := by
  rw [parenthesised, Action.bind_of_ok hopening, Action.bind_apply]
  simp only [kind, Action.gets_apply, hkind, if_false]
  refine Eq.trans (Action.bind_of_ok hitems) ?_
  rw [Action.bind_of_ok hclosing]
  rfl

end Parser

namespace Grammar

open Coroscript.Parser

/-- The power of the first of `tokens` after an operand. -/
def powerBefore (grammar : Grammar) : List Token → Power
  | [] => .lowest
  | token :: rest =>
      if token.kind = .percent then
        if startsOperand (rest.headD token).kind then .multiplicative else .trailing
      else (grammar.power? token.kind).getD .lowest

theorem powerAt_eq (grammar : Grammar) (cursor : Cursor) :
    grammar.powerAt cursor = grammar.powerBefore cursor.tokens := by
  cases hrest : cursor.rest with
  | nil => simp [powerAt, powerBefore, Cursor.tokens, Cursor.peek, hrest]
  | cons next others => simp [powerAt, powerBefore, Cursor.tokens, Cursor.peek, hrest]

theorem powerBefore_cons {grammar : Grammar} {token : Token} {rest : List Token} {power : Power}
    (hkind : token.kind ≠ .percent) (hpower : (grammar.power? token.kind).getD .lowest = power) :
    grammar.powerBefore (token :: rest) = power := by
  rw [powerBefore, if_neg hkind, hpower]

theorem powerBefore_closeParen {token : Token} {rest : List Token}
    (hkind : token.kind = .closeParen) : standard.powerBefore (token :: rest) = .lowest :=
  powerBefore_cons (by rw [hkind]; decide) (by rw [hkind]; rfl)

theorem power_of_startsOperand {kind : TokenKind} (hstarts : startsOperand kind = true) :
    kind ≠ .percent ∧ Power.trailing.rank < ((standard.power? kind).getD .lowest).rank := by
  -- Such a word has no rule behind an operand, and a power above all others.
  cases kind <;> first | contradiction | decide

theorem startsOperand_of_powerBefore {token : Token} {rest : List Token}
    (hpower : (standard.powerBefore (token :: rest)).rank ≤ Power.trailing.rank) :
    startsOperand token.kind = false := by
  cases hstarts : startsOperand token.kind with
  | false => rfl
  | true =>
      obtain ⟨hpercent, htight⟩ := power_of_startsOperand hstarts
      rw [powerBefore_cons hpercent rfl] at hpower
      exact absurd htight (Nat.not_lt.2 hpower)

def leaf? (word : Token) : Option Expr :=
  match word.kind with
  | .number => some (.number word.value word.span)
  | .identifier => some (.symbol word.value word.span)
  | .string => some (.string (Literal.bytes word.value) word.span)
  | _ => none

theorem leaf?_number {word : Token} (hword : word.kind = .number) :
    leaf? word = some (.number word.value word.span) := by
  rw [leaf?, hword]

theorem leaf?_symbol {word : Token} (hword : word.kind = .identifier) :
    leaf? word = some (.symbol word.value word.span) := by
  rw [leaf?, hword]

theorem leaf?_string {word : Token} (hword : word.kind = .string) :
    leaf? word = some (.string (Literal.bytes word.value) word.span) := by
  rw [leaf?, hword]

theorem lead?_of_leaf? {word : Token} {tree : Expr} (hleaf : leaf? word = some tree) :
    standard.lead? word.kind = some .primary := by
  unfold leaf? at hleaf
  split at hleaf
  all_goals first | contradiction | (rename_i hkind; rw [hkind]; rfl)

theorem primary_of_leaf? {cursor : Cursor} {tree : Expr}
    (hleaf : leaf? cursor.current = some tree) :
    primary cursor = (.ok tree, cursor.advance) := by
  unfold leaf? at hleaf
  split at hleaf
  all_goals first
    | contradiction
    | (rename_i hkind
       rw [primary, Action.bind_of_ok (Action.gets_apply Cursor.current cursor)]
       simp only [hkind]
       rw [Action.bind_of_ok (advance_ok rfl), ← Option.some.inj hleaf]
       rfl)

theorem percent_eq_binary {recurse : Power → Parser Expr} {left : Expr} {cursor : Cursor}
    (hstarts : startsOperand cursor.advance.current.kind = true) :
    percent recurse left cursor = binary recurse left .multiplicative cursor := by
  rw [percent, binary, Action.bind_of_ok (advance_ok rfl), Action.bind_of_ok (advance_ok rfl),
    Action.bind_apply]
  simp only [kind, Action.gets_apply, hstarts, if_true]

theorem percent_of_not_startsOperand {recurse : Power → Parser Expr} {left : Expr}
    {cursor : Cursor} (hstarts : startsOperand cursor.advance.current.kind = false) :
    percent recurse left cursor =
      (.ok (.percent left ⟨left.span.start, cursor.current.span.stop⟩), cursor.advance) := by
  rw [percent, Action.bind_of_ok (advance_ok rfl), Action.bind_apply]
  simp only [kind, Action.gets_apply, hstarts]
  rfl

end Grammar

end Coroscript
