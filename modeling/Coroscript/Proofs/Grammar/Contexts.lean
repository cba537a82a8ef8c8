import Coroscript.Proofs.Grammar.Strata

namespace Coroscript

/-! What the reader of expressions consumes, in every context and from every place. -/

theorem Cursor.ended_ofTokens (tokens : List Token) (file : String) :
    (ofTokens tokens file).Ended := by
  cases tokens with
  | nil => exact ⟨_, rfl, rfl⟩
  | cons first rest =>
      rw [ofTokens]
      split
      · rename_i hlast
        refine ⟨rest.getLastD first, ?_, hlast⟩
        simp [Cursor.tokens, List.getLast?_cons]
      · refine ⟨.endMark (rest.getLastD first).span.stop, ?_, rfl⟩
        simp [Cursor.tokens, List.getLast?_cons]

namespace Expr

/-- An expression that a sign or a keyword in front of an operand opens. -/
def isPrefixed : Expr → Bool
  | unary _ _ _ | next _ _ | create _ _ _ _ => true
  | _ => false

def isCall : Expr → Bool
  | call _ _ _ => true
  | _ => false

/-- An expression of the tightest level. -/
def isClosed : Expr → Bool
  | number _ _ | symbol _ _ | string _ _ | grouping _ _ | conversion _ _ _ | call _ _ _ => true
  | _ => false

theorem isClosed_of_isCall {tree : Expr} (hcall : tree.isCall = true) : tree.isClosed = true := by
  cases tree with
  | call callee arguments span => rfl
  | _ => contradiction

end Expr

theorem Stratified.primary_of_isClosed {level : Stratum} {tree : Expr}
    (hstratified : Stratified level tree) (hclosed : tree.isClosed = true) :
    Stratified .primary tree := by
  induction hstratified with
  | number text span => exact .number text span
  | symbol name span => exact .symbol name span
  | string bytes span => exact .string bytes span
  | grouping span hinner _ => exact .grouping span hinner
  | conversion target span hvalue _ => exact .conversion target span hvalue
  | call callee span harguments _ => exact .call callee span harguments
  | tighter _ _ ih => exact ih hclosed
  | _ => contradiction

/-- What a context lets stand as one expression. Prefixes are read in every context; a
percent sign behind an operand and the arguments of a call are left alone by contexts
that hold as tightly as they do. -/
structure Power.Allows (power : Power) (tree : Expr) : Prop where
  stratified : Stratified power.stratum tree
  primary : Power.trailing.rank ≤ power.rank →
    tree.isPrefixed = true ∨ Stratified .primary tree
  uncalled : Power.call.rank ≤ power.rank → tree.isCall = false

namespace Grammar

open Coroscript.Parser

section Shapes

variable {recurse : Power → Parser Expr} {cursor after : Cursor}

theorem lead_shape {rule : LeadRule} {tree : Expr}
    (hread : lead recurse rule cursor = (.ok tree, after)) :
    (tree.isPrefixed = true ∨ tree.isClosed = true) ∧ tree.isCall = false := by
  cases rule with
  | primary =>
      have hleaf := (leaf?_of_primary hread).1
      unfold leaf? at hleaf
      split at hleaf
      · cases hleaf
        exact ⟨.inr rfl, rfl⟩
      · cases hleaf
        exact ⟨.inr rfl, rfl⟩
      · cases hleaf
        exact ⟨.inr rfl, rfl⟩
      · contradiction
  | unary =>
      obtain ⟨operator, _, _, hread⟩ := Action.bind_eq_ok_iff.1 hread
      obtain ⟨operand, _, _, hread⟩ := Action.bind_eq_ok_iff.1 hread
      cases (Action.pure_eq_ok_iff.1 hread).1
      exact ⟨.inl rfl, rfl⟩
  | grouping =>
      obtain ⟨opening, _, _, hread⟩ := Action.bind_eq_ok_iff.1 hread
      obtain ⟨inner, _, _, hread⟩ := Action.bind_eq_ok_iff.1 hread
      obtain ⟨closing, _, _, hread⟩ := Action.bind_eq_ok_iff.1 hread
      cases (Action.pure_eq_ok_iff.1 hread).1
      exact ⟨.inr rfl, rfl⟩
  | conversion =>
      obtain ⟨keyword, _, _, hread⟩ := Action.bind_eq_ok_iff.1 hread
      obtain ⟨opening, _, _, hread⟩ := Action.bind_eq_ok_iff.1 hread
      obtain ⟨value, _, _, hread⟩ := Action.bind_eq_ok_iff.1 hread
      obtain ⟨closing, _, _, hread⟩ := Action.bind_eq_ok_iff.1 hread
      cases (Action.pure_eq_ok_iff.1 hread).1
      exact ⟨.inr rfl, rfl⟩
  | next =>
      obtain ⟨keyword, _, _, hread⟩ := Action.bind_eq_ok_iff.1 hread
      obtain ⟨coroutine, _, _, hread⟩ := Action.bind_eq_ok_iff.1 hread
      cases (Action.pure_eq_ok_iff.1 hread).1
      exact ⟨.inl rfl, rfl⟩
  | create =>
      obtain ⟨keyword, _, _, hread⟩ := Action.bind_eq_ok_iff.1 hread
      obtain ⟨target, _, _, hread⟩ := Action.bind_eq_ok_iff.1 hread
      cases target with
      | call callee arguments span =>
          cases (Action.pure_eq_ok_iff.1 hread).1
          exact ⟨.inl rfl, rfl⟩
      | _ => simp at hread

theorem call_shape {left tree : Expr} (hread : call recurse left cursor = (.ok tree, after)) :
    tree.isCall = true := by
  cases left with
  | symbol callee span =>
      obtain ⟨arguments, _, _, hread⟩ := Action.bind_eq_ok_iff.1 hread
      obtain ⟨stop, _, _, hread⟩ := Action.bind_eq_ok_iff.1 hread
      cases (Action.pure_eq_ok_iff.1 hread).1
      rfl
  | _ => simp [call, Action.bind_apply] at hread

/-- Behind an operand only an opening parenthesis holds tighter than a percent sign. -/
theorem rule_of_trailing {token : Token} {rest : List Token} {rule : FollowRule}
    (hpower : Power.trailing.rank < (standard.powerBefore (token :: rest)).rank)
    (hrule : standard.follow? token.kind = some rule) :
    rule = .call ∧ standard.powerBefore (token :: rest) = .call := by
  rw [powerBefore] at hpower ⊢
  split at hpower
  · split at hpower <;> contradiction
  · rename_i hpercent
    rw [if_neg hpercent]
    revert hpower hrule
    cases token.kind with
    | openParen => exact fun hrule _ => ⟨(Option.some.inj hrule).symm, rfl⟩
    | _ => simp [standard, Power.rank]

theorem operators_shape {power : Power} {bound : Nat} {left tree : Expr}
    (hpower : Power.trailing.rank ≤ power.rank)
    (hread : standard.operators recurse power bound left cursor = (.ok tree, after)) :
    tree = left ∨ power.rank < Power.call.rank ∧ tree.isCall = true := by
  induction bound generalizing left cursor with
  | zero => simp [operators, unexpected] at hread
  | succ bound ih =>
      rw [operators, Action.bind_apply] at hread
      simp only [Action.gets_apply, powerAt_eq] at hread
      split at hread
      · rename_i htight
        rw [Action.bind_apply] at hread
        simp only [kind, Action.gets_apply] at hread
        cases hrule : standard.follow? cursor.current.kind with
        | none => simp [hrule, unexpected] at hread
        | some rule =>
            simp only [hrule] at hread
            obtain ⟨rfl, hcall⟩ := rule_of_trailing (Nat.lt_of_le_of_lt hpower htight) hrule
            obtain ⟨extended, behind, hextended, hread⟩ := Action.bind_eq_ok_iff.1 hread
            have hloose : power.rank < Power.call.rank := hcall ▸ htight
            refine .inr ⟨hloose, ?_⟩
            cases ih hread with
            | inl hsame => exact hsame ▸ call_shape hextended
            | inr hcalled => exact hcalled.2
      · exact .inl (Action.pure_eq_ok_iff.1 hread).1.symm

end Shapes

theorem allows_of_exprWithin {depth : Nat} {power : Power} {cursor after : Cursor} {tree : Expr}
    (hstratified : Stratified power.stratum tree)
    (hread : standard.exprWithin depth power cursor = (.ok tree, after)) : power.Allows tree := by
  cases depth with
  | zero => simp [exprWithin, unexpected] at hread
  | succ depth =>
      rw [exprWithin, Action.bind_apply] at hread
      simp only [kind, Action.gets_apply] at hread
      cases hrule : standard.lead? cursor.current.kind with
      | none => simp [hrule, unexpected] at hread
      | some rule =>
          simp only [hrule] at hread
          obtain ⟨left, middle, hleft, hread⟩ := Action.bind_eq_ok_iff.1 hread
          obtain ⟨hshape, huncalled⟩ := lead_shape hleft
          refine ⟨hstratified, fun htrailing => ?_, fun hcall => ?_⟩
          · have hclosed : tree.isPrefixed = true ∨ tree.isClosed = true := by
              cases operators_shape htrailing hread with
              | inl hsame => exact hsame ▸ hshape
              | inr hcalled => exact .inr (Expr.isClosed_of_isCall hcalled.2)
            cases hclosed with
            | inl hprefixed => exact .inl hprefixed
            | inr hclosed => exact .inr (hstratified.primary_of_isClosed hclosed)
          · have htrailing : Power.trailing.rank ≤ power.rank := Nat.le_trans (by decide) hcall
            cases operators_shape htrailing hread with
            | inl hsame => exact hsame ▸ huncalled
            | inr hcalled => exact absurd hcall (Nat.not_le.2 hcalled.1)

/-- The reader of expressions returns what it has read. From every place in every list of
tokens and in every context, the tokens it takes are those of the tree it returns, each of
them once and in order; the tree is one that the context allows, and the token at which
the reader stops does not hold tighter than the context. -/
theorem expr_takes_rendering {tokens before : List Token} {file : String} {power : Power}
    {cursor after : Cursor} {tree : Expr}
    (hcursor : (Cursor.ofTokens tokens file).tokens = before ++ cursor.tokens)
    (hread : standard.expr power cursor = (.ok tree, after)) :
    ∃ words, (Cursor.ofTokens tokens file).tokens = before ++ words ++ after.tokens ∧
      Renders tree words ∧ power.Allows tree ∧
      (standard.powerBefore after.tokens).rank ≤ power.rank := by
  have hended : cursor.Ended := (Cursor.ended_ofTokens tokens file).suffix hcursor
  obtain ⟨words, hwords, hspells, hpower⟩ := faithful_expr hended hread
  refine ⟨words, ?_, hspells.renders, allows_of_exprWithin hspells.stratified hread, hpower⟩
  rw [hcursor, hwords, List.append_assoc]

-- `x = a % !b`, read behind the sign `=`. No end mark is given, and a sum would end the operand.
theorem expr_takes_rendering_percent_of_not :
    standard.expr .additive
        ⟨⟨.identifier, "a", default⟩,
          [⟨.percent, "%", default⟩, ⟨.not, "!", default⟩, ⟨.identifier, "b", default⟩,
            .endMark default], default⟩ =
      (.ok (.binary (.symbol "a" default) ⟨.percent, "%", default⟩
        (.unary ⟨.not, "!", default⟩ (.symbol "b" default) default) default),
        ⟨.endMark default, [], default⟩) ∧
    ∃ words,
      (Cursor.ofTokens
        [⟨.identifier, "x", default⟩, ⟨.assignment, "=", default⟩, ⟨.identifier, "a", default⟩,
          ⟨.percent, "%", default⟩, ⟨.not, "!", default⟩, ⟨.identifier, "b", default⟩]
        "").tokens =
        [⟨.identifier, "x", default⟩, ⟨.assignment, "=", default⟩] ++ words ++
          (⟨.endMark default, [], default⟩ : Cursor).tokens ∧
      Renders (.binary (.symbol "a" default) ⟨.percent, "%", default⟩
        (.unary ⟨.not, "!", default⟩ (.symbol "b" default) default) default) words ∧
      Power.additive.Allows (.binary (.symbol "a" default) ⟨.percent, "%", default⟩
        (.unary ⟨.not, "!", default⟩ (.symbol "b" default) default) default) ∧
      (standard.powerBefore (⟨.endMark default, [], default⟩ : Cursor).tokens).rank ≤
        Power.additive.rank := by
  have hread : standard.expr .additive
      ⟨⟨.identifier, "a", default⟩,
        [⟨.percent, "%", default⟩, ⟨.not, "!", default⟩, ⟨.identifier, "b", default⟩,
          .endMark default], default⟩ =
      (.ok (.binary (.symbol "a" default) ⟨.percent, "%", default⟩
        (.unary ⟨.not, "!", default⟩ (.symbol "b" default) default) default),
        ⟨.endMark default, [], default⟩) := rfl
  exact ⟨hread, expr_takes_rendering rfl hread⟩

end Grammar

end Coroscript
