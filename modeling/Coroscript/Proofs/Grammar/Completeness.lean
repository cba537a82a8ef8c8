import Coroscript.Proofs.Grammar.Steps

namespace Coroscript

/-! Every spelling is read back: the reader of expressions finds the tree that
the words spell, and stops behind them. -/

namespace Grammar

open Coroscript.Parser

theorem exprWithin_succ {grammar : Grammar} {cursor : Cursor} {rule : LeadRule} {power : Power}
    {depth : Nat} (hlead : grammar.lead? cursor.current.kind = some rule) :
    grammar.exprWithin (depth + 1) power cursor =
      (lead (grammar.exprWithin depth) rule >>=
        grammar.operators (grammar.exprWithin depth) power depth) cursor := by
  rw [exprWithin, Action.bind_apply]
  simp only [kind, Action.gets_apply, hlead]

theorem operators_stop {grammar : Grammar} {recurse : Power → Parser Expr} {power : Power}
    {bound : Nat} {left : Expr} {cursor : Cursor} (hbound : 0 < bound)
    (hpower : (grammar.powerBefore cursor.tokens).rank ≤ power.rank) :
    grammar.operators recurse power bound left cursor = (.ok left, cursor) := by
  cases bound with
  | zero => contradiction
  | succ bound =>
      rw [operators, Action.bind_apply]
      simp only [Action.gets_apply, powerAt_eq]
      rw [if_neg (Nat.not_lt.2 hpower)]
      rfl

theorem operators_step {grammar : Grammar} {recurse : Power → Parser Expr} {power : Power}
    {bound : Nat} {left extended : Expr} {cursor after : Cursor} {rule : FollowRule}
    (hpower : power.rank < (grammar.powerBefore cursor.tokens).rank)
    (hrule : grammar.follow? cursor.current.kind = some rule)
    (hfollow : follow recurse rule left (grammar.powerBefore cursor.tokens) cursor =
      (.ok extended, after)) :
    grammar.operators recurse power (bound + 1) left cursor =
      grammar.operators recurse power bound extended after := by
  rw [operators, Action.bind_apply]
  simp only [Action.gets_apply, powerAt_eq]
  rw [if_pos hpower, Action.bind_apply]
  simp only [kind, Action.gets_apply, hrule]
  exact Action.bind_of_ok hfollow

/-- Reading from `cursor` in the context `power` comes to the place before
`rest`, with `tree` as the operand read so far. -/
def Comes (depth : Nat) (power : Power) (cursor : Cursor) (tree : Expr) (rest : List Token) :
    Prop :=
  ∃ found bound after,
    standard.exprWithin (depth + 1) power cursor =
        standard.operators (standard.exprWithin depth) power bound found after ∧
      found.unspanned = tree.unspanned ∧ after.tokens = rest ∧
      after.remaining ≤ bound ∧ bound ≤ depth

theorem Comes.read {depth : Nat} {power : Power} {cursor : Cursor} {tree : Expr}
    {rest : List Token} (hcomes : Comes depth power cursor tree rest)
    (hpower : (standard.powerBefore rest).rank ≤ power.rank) :
    ∃ found after, standard.exprWithin (depth + 1) power cursor = (.ok found, after) ∧
      found.unspanned = tree.unspanned ∧ after.tokens = rest := by
  obtain ⟨found, bound, after, heq, hfound, rfl, hbound, _⟩ := hcomes
  have hpositive : 0 < bound := Nat.lt_of_lt_of_le (Nat.succ_pos _) hbound
  exact ⟨found, after, by rw [heq, operators_stop hpositive hpower], hfound, rfl⟩

theorem Comes.of_lead {depth : Nat} {power : Power} {cursor after : Cursor} {found tree : Expr}
    {rule : LeadRule} (hlead : standard.lead? cursor.current.kind = some rule)
    (hread : lead (standard.exprWithin depth) rule cursor = (.ok found, after))
    (hfound : found.unspanned = tree.unspanned) (hremaining : after.remaining ≤ depth) :
    Comes depth power cursor tree after.tokens :=
  ⟨found, depth, after, by rw [exprWithin_succ hlead, Action.bind_of_ok hread], hfound, rfl,
    hremaining, Nat.le_refl depth⟩

theorem Comes.follow {depth : Nat} {power : Power} {cursor : Cursor} {left tree : Expr}
    {sign : Token} {middle rest : List Token} {rule : FollowRule}
    (hcomes : Comes depth power cursor left (sign :: middle))
    (hpower : power.rank < (standard.powerBefore (sign :: middle)).rank)
    (hrule : standard.follow? sign.kind = some rule)
    (hrest : rest.length ≤ middle.length)
    (hfollow : ∀ found after, found.unspanned = left.unspanned →
      after.tokens = sign :: middle → after.remaining ≤ depth →
      ∃ extended behind,
        follow (standard.exprWithin depth) rule found
            (standard.powerBefore (sign :: middle)) after = (.ok extended, behind) ∧
          extended.unspanned = tree.unspanned ∧ behind.tokens = rest) :
    Comes depth power cursor tree rest := by
  obtain ⟨found, bound, after, heq, hfound, hafter, hbound, hdepth⟩ := hcomes
  obtain ⟨extended, behind, hextended, htree, hbehind⟩ :=
    hfollow found after hfound hafter (Nat.le_trans hbound hdepth)
  rw [Cursor.remaining_eq_length, hafter, List.length_cons] at hbound
  -- The sign is one of the words that are left, so the loop has a round for it.
  obtain ⟨bound, rfl⟩ : ∃ smaller, bound = smaller + 1 := ⟨bound - 1, by omega⟩
  rw [← hafter] at hpower hextended
  rw [← Cursor.current_eq hafter] at hrule
  refine ⟨extended, bound, behind, ?_, htree, hbehind, ?_, by omega⟩
  · rw [heq, operators_step hpower hrule hextended]
  · rw [Cursor.remaining_eq_length, hbehind]
    omega

/-! What it means that a phrase is read whole. -/

/-- Words of `level` are read as `tree`, in every context that is not tighter than
the level and before every rest that draws no operand away. -/
def ReadsAs (level : Stratum) (tree : Expr) (words : List Token) : Prop :=
  ∀ {rest : List Token} {cursor : Cursor} {power : Power} {depth : Nat},
    cursor.tokens = words ++ rest → rest ≠ [] → cursor.remaining ≤ depth + 1 →
    power.rank ≤ level.floor.rank →
    (standard.powerBefore rest).rank ≤ level.ceiling.rank →
    Comes depth power cursor tree rest

def SeparatedReadsAs (trees : List Expr) (words : List Token) : Prop :=
  ∀ {closing : Token} {rest : List Token} {cursor : Cursor} {depth bound : Nat},
    closing.kind = .closeParen → cursor.tokens = words ++ closing :: rest →
    cursor.remaining ≤ depth → cursor.remaining ≤ bound →
    ∃ found after,
      separated (standard.exprWithin depth .lowest) bound cursor = (.ok found, after) ∧
        Expr.unspannedAll found = Expr.unspannedAll trees ∧ after.tokens = closing :: rest

def ArgumentsReadAs (arguments : List Expr) (words : List Token) : Prop :=
  ∀ {rest : List Token} {cursor : Cursor} {depth : Nat},
    cursor.tokens = words ++ rest → rest ≠ [] → cursor.remaining ≤ depth →
    ∃ found after,
      parenthesised (standard.exprWithin depth .lowest) cursor = (.ok found, after) ∧
        Expr.unspannedAll found = Expr.unspannedAll arguments ∧ after.tokens = rest

theorem ReadsAs.operand {level : Stratum} {tree : Expr} {words rest : List Token}
    {cursor : Cursor} {power : Power} {depth : Nat} (hread : ReadsAs level tree words)
    (htokens : cursor.tokens = words ++ rest) (hrest : rest ≠ [])
    (hdepth : cursor.remaining ≤ depth) (hfloor : power.rank ≤ level.floor.rank)
    (hceiling : (standard.powerBefore rest).rank ≤ level.ceiling.rank)
    (hpower : (standard.powerBefore rest).rank ≤ power.rank) :
    ∃ found after, standard.exprWithin depth power cursor = (.ok found, after) ∧
      found.unspanned = tree.unspanned ∧ after.tokens = rest := by
  cases depth with
  | zero => simp [Cursor.remaining] at hdepth
  | succ depth => exact (hread htokens hrest hdepth hfloor hceiling).read hpower

theorem ReadsAs.whole {tree : Expr} {words rest : List Token} {cursor : Cursor} {depth : Nat}
    (hread : ReadsAs .logical tree words) (htokens : cursor.tokens = words ++ rest)
    (hrest : rest ≠ []) (hpower : standard.powerBefore rest = .lowest)
    (hdepth : cursor.remaining ≤ depth) :
    ∃ found after, standard.exprWithin depth .lowest cursor = (.ok found, after) ∧
      found.unspanned = tree.unspanned ∧ after.tokens = rest :=
  hread.operand htokens hrest hdepth (Nat.le_refl _) (by rw [hpower]; decide)
    (Nat.le_of_eq (by rw [hpower]))

theorem ReadsAs.enclosed {tree : Expr} {words rest : List Token} {closing : Token}
    {cursor : Cursor} {depth : Nat} (hread : ReadsAs .logical tree words)
    (hclosing : closing.kind = .closeParen) (htokens : cursor.tokens = words ++ closing :: rest)
    (hdepth : cursor.remaining ≤ depth) :
    ∃ found after, standard.exprWithin depth .lowest cursor = (.ok found, after) ∧
      found.unspanned = tree.unspanned ∧ after.tokens = closing :: rest :=
  hread.whole htokens (List.cons_ne_nil _ _) (powerBefore_closeParen hclosing) hdepth

/-! One lemma for each way to spell an expression. -/

theorem Comes.leaf {word : Token} {tree found : Expr} {rest : List Token} {cursor : Cursor}
    {power : Power} {depth : Nat} (hleaf : leaf? word = some found)
    (hfound : found.unspanned = tree.unspanned) (htokens : cursor.tokens = word :: rest)
    (hrest : rest ≠ []) (hdepth : cursor.remaining ≤ depth + 1) :
    Comes depth power cursor tree rest := by
  have hafter := Cursor.tokens_advance htokens hrest
  rw [Cursor.remaining_eq_length, htokens, List.length_cons] at hdepth
  rw [← Cursor.current_eq htokens] at hleaf
  have hread : lead (standard.exprWithin depth) .primary cursor = (.ok found, cursor.advance) :=
    primary_of_leaf? hleaf
  rw [← hafter]
  refine Comes.of_lead (lead?_of_leaf? hleaf) hread hfound ?_
  rw [Cursor.remaining_eq_length, hafter]
  omega

theorem readsAs_leaf {word : Token} {tree found : Expr} (hleaf : leaf? word = some found)
    (hfound : found.unspanned = tree.unspanned) : ReadsAs .primary tree [word] := by
  intro rest cursor power depth htokens hrest hdepth _ _
  exact Comes.leaf hleaf hfound htokens hrest hdepth

theorem readsAs_grouping {opening closing : Token} {inner : Expr} {words : List Token}
    (span : Span) (hopening : opening.kind = .openParen) (hinner : ReadsAs .logical inner words)
    (hclosing : closing.kind = .closeParen) :
    ReadsAs .primary (.grouping inner span) (opening :: words ++ [closing]) := by
  intro rest cursor power depth htokens hrest hdepth _ _
  simp only [List.cons_append, List.append_assoc, List.nil_append] at htokens
  have hbody := Cursor.tokens_advance htokens (by simp)
  rw [Cursor.remaining_eq_length, htokens, List.length_cons] at hdepth
  have hfits : cursor.advance.remaining ≤ depth := by
    rw [Cursor.remaining_eq_length, hbody]
    omega
  obtain ⟨found, after, hfound, hsame, hafter⟩ := hinner.enclosed hclosing hbody hfits
  have hbehind := Cursor.tokens_advance hafter hrest
  have hlead : standard.lead? cursor.current.kind = some .grouping := by
    rw [Cursor.current_eq htokens, hopening]
    rfl
  have hread : lead (standard.exprWithin depth) .grouping cursor =
      (.ok (.grouping found ⟨opening.span.start, closing.span.stop⟩), after.advance) := by
    rw [lead, grouping, Action.bind_of_ok (advance_ok htokens), Action.bind_of_ok hfound,
      Action.bind_of_ok (expect_ok hafter hclosing)]
    rfl
  rw [← hbehind]
  refine Comes.of_lead hlead hread (by simp [Expr.unspanned, hsame]) ?_
  rw [Cursor.remaining_eq_length, hbehind]
  simp only [List.length_append, List.length_cons] at hdepth
  omega

theorem readsAs_conversion {keyword opening closing : Token} {target : NumericType}
    {value : Expr} {words : List Token} (span : Span)
    (hkeyword : keyword.kind = target.keyword) (hopening : opening.kind = .openParen)
    (hvalue : ReadsAs .logical value words) (hclosing : closing.kind = .closeParen) :
    ReadsAs .primary (.conversion target value span)
      (keyword :: opening :: words ++ [closing]) := by
  intro rest cursor power depth htokens hrest hdepth _ _
  simp only [List.cons_append, List.append_assoc, List.nil_append] at htokens
  have hparen := Cursor.tokens_advance htokens (by simp)
  have hbody := Cursor.tokens_advance hparen (by simp)
  rw [Cursor.remaining_eq_length, htokens, List.length_cons, List.length_cons] at hdepth
  have hfits : cursor.advance.advance.remaining ≤ depth := by
    rw [Cursor.remaining_eq_length, hbody]
    omega
  obtain ⟨found, after, hfound, hsame, hafter⟩ := hvalue.enclosed hclosing hbody hfits
  have hbehind := Cursor.tokens_advance hafter hrest
  have hlead : standard.lead? cursor.current.kind = some .conversion := by
    rw [Cursor.current_eq htokens, hkeyword]
    cases target <;> rfl
  have htarget : (if keyword.kind = .keyInt then NumericType.int else .float) = target := by
    rw [hkeyword]
    cases target <;> rfl
  have hread : lead (standard.exprWithin depth) .conversion cursor =
      (.ok (.conversion target found ⟨keyword.span.start, closing.span.stop⟩),
        after.advance) := by
    rw [lead, conversion, Action.bind_of_ok (advance_ok htokens), htarget,
      Action.bind_of_ok (expect_ok hparen hopening), Action.bind_of_ok hfound,
      Action.bind_of_ok (expect_ok hafter hclosing)]
    rfl
  rw [← hbehind]
  refine Comes.of_lead hlead hread (by simp [Expr.unspanned, hsame]) ?_
  rw [Cursor.remaining_eq_length, hbehind]
  simp only [List.length_append, List.length_cons] at hdepth
  omega

theorem ReadsAs.behind {level : Stratum} {tree : Expr} {words rest : List Token} {first : Token}
    {cursor : Cursor} {depth : Nat} (hread : ReadsAs level tree words)
    (htokens : cursor.tokens = first :: words ++ rest) (hrest : rest ≠ [])
    (hdepth : cursor.remaining ≤ depth + 1) (hfloor : Power.unary.rank ≤ level.floor.rank)
    (hceiling : (standard.powerBefore rest).rank ≤ Power.unary.rank)
    (hlevel : Power.unary.rank ≤ level.ceiling.rank) :
    ∃ found after, standard.exprWithin depth .unary cursor.advance = (.ok found, after) ∧
      found.unspanned = tree.unspanned ∧ after.tokens = rest ∧ after.remaining ≤ depth := by
  have hbody := Cursor.tokens_advance htokens (by simp [hrest])
  rw [Cursor.remaining_eq_length, htokens] at hdepth
  simp only [List.cons_append, List.length_cons, List.length_append] at hdepth
  have hfits : cursor.advance.remaining ≤ depth := by
    rw [Cursor.remaining_eq_length, hbody]
    simp only [List.append_eq, List.length_append]
    omega
  obtain ⟨found, after, hfound, hsame, hafter⟩ :=
    hread.operand hbody hrest hfits hfloor (Nat.le_trans hceiling hlevel) hceiling
  refine ⟨found, after, hfound, hsame, hafter, ?_⟩
  rw [Cursor.remaining_eq_length, hafter]
  omega

theorem readsAs_unary {sign operator : Token} {operand : Expr} {words : List Token}
    (span : Span) (hsign : sign.kind ∈ TokenKind.signs) (hsame : sign.SameWord operator)
    (hoperand : ReadsAs .unary operand words) :
    ReadsAs .unary (.unary operator operand span) (sign :: words) := by
  intro rest cursor power depth htokens hrest hdepth _ hceiling
  obtain ⟨found, after, hfound, hoperand, rfl, hafter⟩ :=
    hoperand.behind htokens hrest hdepth (Nat.le_refl _) hceiling (Nat.le_refl _)
  have hlead : standard.lead? cursor.current.kind = some .unary := by
    rw [Cursor.current_eq htokens]
    simp only [TokenKind.signs, List.mem_cons, List.not_mem_nil, or_false] at hsign
    rcases hsign with hkind | hkind | hkind <;> rw [hkind] <;> rfl
  have hread : lead (standard.exprWithin depth) .unary cursor =
      (.ok (.unary sign found ⟨sign.span.start, found.span.stop⟩), after) := by
    rw [lead, unary, Action.bind_of_ok (advance_ok htokens), Action.bind_of_ok hfound]
    rfl
  exact Comes.of_lead hlead hread (by simp [Expr.unspanned, hoperand, hsame.unspanned_eq])
    hafter

theorem readsAs_next {keyword : Token} {coroutine : Expr} {words : List Token} (span : Span)
    (hkeyword : keyword.kind = .keyNext) (hcoroutine : ReadsAs .unary coroutine words) :
    ReadsAs .unary (.next coroutine span) (keyword :: words) := by
  intro rest cursor power depth htokens hrest hdepth _ hceiling
  obtain ⟨found, after, hfound, hsame, rfl, hafter⟩ :=
    hcoroutine.behind htokens hrest hdepth (Nat.le_refl _) hceiling (Nat.le_refl _)
  have hlead : standard.lead? cursor.current.kind = some .next := by
    rw [Cursor.current_eq htokens, hkeyword]
    rfl
  have hread : lead (standard.exprWithin depth) .next cursor =
      (.ok (.next found ⟨keyword.span.start, found.span.stop⟩), after) := by
    rw [lead, next, Action.bind_of_ok (advance_ok htokens), Action.bind_of_ok hfound]
    rfl
  exact Comes.of_lead hlead hread (by simp [Expr.unspanned, hsame]) hafter

theorem readsAs_create {keyword : Token} {callee : String} {arguments : List Expr}
    {callSpan : Span} {words : List Token} (span : Span)
    (hkeyword : keyword.kind = .keyCreateCoroutine)
    (hcall : ReadsAs .primary (.call callee arguments callSpan) words) :
    ReadsAs .unary (.create callee arguments callSpan span) (keyword :: words) := by
  intro rest cursor power depth htokens hrest hdepth _ hceiling
  obtain ⟨found, after, hfound, hsame, rfl, hafter⟩ :=
    hcall.behind htokens hrest hdepth (by decide) hceiling (by decide)
  -- What was read is a call as well, since it differs in spans only.
  obtain ⟨others, otherSpan, rfl, hothers⟩ := Expr.eq_call_of_unspanned_eq hsame
  have hlead : standard.lead? cursor.current.kind = some .create := by
    rw [Cursor.current_eq htokens, hkeyword]
    rfl
  have hread : lead (standard.exprWithin depth) .create cursor =
      (.ok (.create callee others otherSpan ⟨keyword.span.start, otherSpan.stop⟩), after) := by
    rw [lead, create, Action.bind_of_ok (advance_ok htokens), Action.bind_of_ok hfound]
    rfl
  exact Comes.of_lead hlead hread (by simp [Expr.unspanned, hothers]) hafter

theorem readsAs_call {callee : Token} {arguments : List Expr} {words : List Token} (span : Span)
    (hcallee : callee.kind = .identifier) (hfirst : words.head?.map Token.kind = some .openParen)
    (harguments : ArgumentsReadAs arguments words) :
    ReadsAs .primary (.call callee.value arguments span) (callee :: words) := by
  intro rest cursor power depth htokens hrest hdepth hfloor _
  cases words with
  | nil => simp at hfirst
  | cons opening words =>
      simp only [List.head?_cons, Option.map_some, Option.some.injEq] at hfirst
      have hpower : standard.powerBefore (opening :: (words ++ rest)) = .call :=
        powerBefore_cons (by rw [hfirst]; decide) (by rw [hfirst]; rfl)
      have hsymbol : Comes depth power cursor (.symbol callee.value callee.span)
          (opening :: (words ++ rest)) :=
        Comes.leaf (leaf?_symbol hcallee) rfl htokens (by simp) hdepth
      have hrule : standard.follow? opening.kind = some .call := by
        rw [hfirst]
        rfl
      refine hsymbol.follow ?_ hrule (by simp) ?_
      · rw [hpower]
        exact Nat.lt_of_le_of_lt hfloor (by decide)
      · intro found after hfound hafter hfits
        obtain ⟨symbolSpan, rfl⟩ := Expr.eq_symbol_of_unspanned_eq hfound
        obtain ⟨others, behind, hothers, hsame, hbehind⟩ := harguments hafter hrest hfits
        refine ⟨.call callee.value others ⟨symbolSpan.start, behind.previousEnd⟩, behind, ?_,
          by simp [Expr.unspanned, hsame], hbehind⟩
        rw [follow, call, Action.bind_of_ok hothers]
        rfl

theorem binary_reads {level : Stratum} {found left right : Expr} {sign operator : Token}
    {words rest : List Token} {cursor : Cursor} {power : Power} {depth : Nat} (span : Span)
    (hright : ReadsAs level right words) (hfound : found.unspanned = left.unspanned)
    (hsame : sign.SameWord operator) (htokens : cursor.tokens = sign :: (words ++ rest))
    (hrest : rest ≠ []) (hdepth : cursor.remaining ≤ depth)
    (hfloor : power.rank ≤ level.floor.rank)
    (hceiling : (standard.powerBefore rest).rank ≤ level.ceiling.rank)
    (hpower : (standard.powerBefore rest).rank ≤ power.rank) :
    ∃ extended behind,
      binary (standard.exprWithin depth) found power cursor = (.ok extended, behind) ∧
        extended.unspanned = (Expr.binary left operator right span).unspanned ∧
        behind.tokens = rest := by
  have hbody := Cursor.tokens_advance htokens (by simp [hrest])
  have hfits : cursor.advance.remaining ≤ depth :=
    Nat.le_trans (Cursor.remaining_advance_le cursor) hdepth
  obtain ⟨other, behind, hother, hright, hbehind⟩ :=
    hright.operand hbody hrest hfits hfloor hceiling hpower
  refine ⟨.binary found sign other ⟨found.span.start, other.span.stop⟩, behind, ?_,
    by simp [Expr.unspanned, hfound, hright, hsame.unspanned_eq], hbehind⟩
  rw [binary, Action.bind_of_ok (advance_ok htokens), Action.bind_of_ok hother]
  rfl

theorem readsAs_binary {level : Stratum} {left right : Expr} {sign operator : Token}
    {leftWords rightWords : List Token} (span : Span) (hsign : sign.kind ∈ level.operators)
    (hsame : sign.SameWord operator) (hleft : ReadsAs level left leftWords)
    (hright : ReadsAs level.tighter right rightWords) :
    ReadsAs level (.binary left operator right span) (leftWords ++ sign :: rightWords) := by
  intro rest cursor power depth htokens hrest hdepth hfloor hceiling
  rw [List.append_assoc, List.cons_append] at htokens
  obtain ⟨hpercent, hrule, hsignPower, hlevel, htighter⟩ := Stratum.operator_facts hsign
  have hpower : standard.powerBefore (sign :: (rightWords ++ rest)) = level.ceiling :=
    powerBefore_cons hpercent (by rw [hsignPower]; rfl)
  have hcomes : Comes depth power cursor left (sign :: (rightWords ++ rest)) :=
    hleft htokens (List.cons_ne_nil _ _) hdepth hfloor (Nat.le_of_eq (by rw [hpower]))
  refine hcomes.follow ?_ hrule (by simp) ?_
  · rw [hpower]
    exact Nat.lt_of_le_of_lt hfloor hlevel
  · intro found after hfound hafter hfits
    rw [hpower, follow]
    exact binary_reads span hright hfound hsame hafter hrest hfits htighter
      (Nat.le_trans hceiling level.ceiling_le_tighter) hceiling

theorem readsAs_exponent {left right : Expr} {sign operator : Token}
    {leftWords rightWords : List Token} (span : Span) (hsign : sign.kind = .caret)
    (hsame : sign.SameWord operator) (hleft : ReadsAs .unary left leftWords)
    (hright : ReadsAs .exponential right rightWords) :
    ReadsAs .exponential (.binary left operator right span)
      (leftWords ++ sign :: rightWords) := by
  intro rest cursor power depth htokens hrest hdepth hfloor hceiling
  rw [List.append_assoc, List.cons_append] at htokens
  have hpower : standard.powerBefore (sign :: (rightWords ++ rest)) = .exponential :=
    powerBefore_cons (by rw [hsign]; decide) (by rw [hsign]; rfl)
  have hrule : standard.follow? sign.kind = some .exponent := by
    rw [hsign]
    rfl
  have hcomes : Comes depth power cursor left (sign :: (rightWords ++ rest)) :=
    hleft htokens (List.cons_ne_nil _ _) hdepth
      (Nat.le_trans hfloor (Stratum.floor_le_tighter .exponential)) (by rw [hpower]; decide)
  refine hcomes.follow ?_ hrule (by simp) ?_
  · rw [hpower]
    exact Nat.lt_of_le_of_lt hfloor (by decide)
  · -- An exponent is read as loosely as a factor, and so takes the powers behind it along.
    intro found after hfound hafter hfits
    exact binary_reads span hright hfound hsame hafter hrest hfits (Nat.le_refl _) hceiling
      hceiling

theorem readsAs_percentOf {left right : Expr} {sign operator : Token}
    {leftWords rightWords : List Token} (span : Span) (hsign : sign.kind = .percent)
    (hsame : sign.SameWord operator) (hleft : ReadsAs .product left leftWords)
    (hright : ReadsAs .exponential right rightWords)
    (hfirst : ∃ first others, rightWords = first :: others ∧
      startsOperand first.kind = true) :
    ReadsAs .product (.binary left operator right span) (leftWords ++ sign :: rightWords) := by
  intro rest cursor power depth htokens hrest hdepth hfloor hceiling
  rw [List.append_assoc, List.cons_append] at htokens
  obtain ⟨first, others, rfl, hoperand⟩ := hfirst
  have hpower :
      standard.powerBefore (sign :: (first :: others ++ rest)) = .multiplicative := by
    simp [powerBefore, hsign, hoperand]
  have hrule : standard.follow? sign.kind = some .percent := by
    rw [hsign]
    rfl
  have hcomes : Comes depth power cursor left (sign :: (first :: others ++ rest)) :=
    hleft htokens (List.cons_ne_nil _ _) hdepth hfloor (by rw [hpower]; decide)
  refine hcomes.follow ?_ hrule (by rw [List.length_append]; omega) ?_
  · rw [hpower]
    exact Nat.lt_of_le_of_lt hfloor (by decide)
  · intro found after hfound hafter hfits
    have hbody := Cursor.tokens_advance hafter (List.cons_ne_nil _ _)
    rw [follow, percent_eq_binary (by rw [Cursor.current_eq hbody]; exact hoperand)]
    exact binary_reads span hright hfound hsame hafter hrest hfits (Nat.le_refl _) hceiling
      hceiling

theorem readsAs_percent {operand : Expr} {words : List Token} {sign : Token} (span : Span)
    (hoperand : ReadsAs .trailing operand words) (hsign : sign.kind = .percent) :
    ReadsAs .trailing (.percent operand span) (words ++ [sign]) := by
  intro rest cursor power depth htokens hrest hdepth hfloor hceiling
  rw [List.append_assoc, List.singleton_append] at htokens
  cases rest with
  | nil => contradiction
  | cons next others =>
      -- No operand starts behind the sign: it would hold tighter than the ceiling allows.
      have hnext := startsOperand_of_powerBefore hceiling
      have hpower : standard.powerBefore (sign :: next :: others) = .trailing := by
        simp [powerBefore, hsign, hnext]
      have hrule : standard.follow? sign.kind = some .percent := by
        rw [hsign]
        rfl
      have hcomes : Comes depth power cursor operand (sign :: next :: others) :=
        hoperand htokens (List.cons_ne_nil _ _) hdepth hfloor (by rw [hpower]; decide)
      refine hcomes.follow ?_ hrule (Nat.le_refl _) ?_
      · rw [hpower]
        exact Nat.lt_of_le_of_lt hfloor (by decide)
      · intro found after hfound hafter _
        have hbehind := Cursor.tokens_advance hafter (List.cons_ne_nil _ _)
        exact ⟨_, after.advance,
          percent_of_not_startsOperand (by rw [Cursor.current_eq hbehind, hnext]),
          by simp [Expr.unspanned, hfound], hbehind⟩

theorem separatedReadsAs_last {tree : Expr} {words : List Token}
    (htree : ReadsAs .logical tree words) : SeparatedReadsAs [tree] words := by
  intro closing rest cursor depth bound hclosing htokens hdepth hbound
  obtain ⟨found, after, hfound, hsame, hafter⟩ := htree.enclosed hclosing htokens hdepth
  cases bound with
  | zero => simp [Cursor.remaining] at hbound
  | succ bound =>
      refine ⟨[found], after, ?_, by simp [Expr.unspannedAll, hsame], hafter⟩
      rw [separated, Action.bind_of_ok hfound, Action.bind_apply]
      simp [kind, Cursor.current_eq hafter, hclosing]

theorem separatedReadsAs_cons {tree : Expr} {trees : List Expr} {words others : List Token}
    {comma : Token} (htree : ReadsAs .logical tree words) (hcomma : comma.kind = .comma)
    (htrees : SeparatedReadsAs trees others) :
    SeparatedReadsAs (tree :: trees) (words ++ comma :: others) := by
  intro closing rest cursor depth bound hclosing htokens hdepth hbound
  rw [List.append_assoc, List.cons_append] at htokens
  have hpower : standard.powerBefore (comma :: (others ++ closing :: rest)) = .lowest :=
    powerBefore_cons (by rw [hcomma]; decide) (by rw [hcomma]; rfl)
  obtain ⟨found, after, hfound, hsame, hafter⟩ :=
    htree.whole htokens (List.cons_ne_nil _ _) hpower hdepth
  have hbody := Cursor.tokens_advance hafter (by simp)
  rw [Cursor.remaining_eq_length, htokens, List.length_append, List.length_cons] at hdepth hbound
  have hlength : after.advance.remaining = (others ++ closing :: rest).length := by
    rw [Cursor.remaining_eq_length, hbody]
  cases bound with
  | zero => omega
  | succ bound =>
      obtain ⟨founds, behind, hfounds, hsames, hbehind⟩ :=
        htrees hclosing hbody (show after.advance.remaining ≤ depth by omega)
          (show after.advance.remaining ≤ bound by omega)
      refine ⟨found :: founds, behind, ?_, by simp [Expr.unspannedAll, hsame, hsames], hbehind⟩
      rw [separated, Action.bind_of_ok hfound, Action.bind_apply]
      simp only [kind, Action.gets_apply, Cursor.current_eq hafter, hcomma, if_true]
      rw [Action.bind_of_ok (advance_ok hafter), Action.bind_of_ok hfounds]
      rfl

theorem argumentsReadAs_empty {opening closing : Token} (hopening : opening.kind = .openParen)
    (hclosing : closing.kind = .closeParen) : ArgumentsReadAs [] [opening, closing] := by
  intro rest cursor depth htokens hrest _
  have hbody := Cursor.tokens_advance htokens (by simp)
  refine ⟨[], cursor.advance.advance, ?_, rfl, Cursor.tokens_advance hbody hrest⟩
  rw [parenthesised, Action.bind_of_ok (expect_ok htokens hopening), Action.bind_apply]
  simp only [kind, Action.gets_apply, Cursor.current_eq hbody, hclosing, if_true]
  rw [Action.bind_of_ok (advance_ok hbody)]
  rfl

theorem argumentsReadAs_items {opening closing : Token} {arguments : List Expr}
    {words : List Token} (hopening : opening.kind = .openParen)
    (harguments : SeparatedReadsAs arguments words)
    (hfirst : ∃ first others, words = first :: others ∧ first.kind ≠ .closeParen)
    (hclosing : closing.kind = .closeParen) :
    ArgumentsReadAs arguments (opening :: words ++ [closing]) := by
  intro rest cursor depth htokens hrest hdepth
  rw [List.append_assoc, List.singleton_append, List.cons_append] at htokens
  have hbody := Cursor.tokens_advance htokens (by simp)
  have hfits := Nat.le_trans (Cursor.remaining_advance_le cursor) hdepth
  obtain ⟨founds, after, hfounds, hsames, hafter⟩ :=
    harguments hclosing hbody hfits (Nat.le_refl _)
  obtain ⟨first, others, rfl, hkind⟩ := hfirst
  rw [← Cursor.current_eq hbody] at hkind
  exact ⟨founds, after.advance,
    parenthesised_ok (expect_ok htokens hopening) hkind hfounds (expect_ok hafter hclosing),
    hsames, Cursor.tokens_advance hafter hrest⟩

end Grammar

open Grammar

theorem SpellsSeparated.words_eq_cons :
    ∀ {trees : List Expr} {words : List Token}, SpellsSeparated trees words →
      ∃ first rest, words = first :: rest ∧ first.kind ≠ .closeParen
  | _, _, .last htree => by
      obtain ⟨first, rest, rfl, hfirst⟩ := htree.words_eq_cons
      refine ⟨first, rest, rfl, ?_⟩
      rintro hkind
      simp [hkind, startsOperand] at hfirst
  | _, _, .cons htree _ _ => by
      obtain ⟨first, rest, rfl, hfirst⟩ := htree.words_eq_cons
      refine ⟨first, _, rfl, ?_⟩
      rintro hkind
      simp [hkind, startsOperand] at hfirst

theorem SpellsArguments.head?_kind :
    ∀ {arguments : List Expr} {words : List Token}, SpellsArguments arguments words →
      words.head?.map Token.kind = some .openParen
  | _, _, .empty hopening _ => by simp [hopening]
  | _, _, .items hopening _ _ => by simp [hopening]

mutual

theorem Spells.readsAs :
    ∀ {level : Stratum} {tree : Expr} {words : List Token}, Spells level tree words →
      ReadsAs level tree words
  | _, _, _, .number _ hword => readsAs_leaf (leaf?_number hword) rfl
  | _, _, _, .symbol _ hword => readsAs_leaf (leaf?_symbol hword) rfl
  | _, _, _, .string _ hword => readsAs_leaf (leaf?_string hword) rfl
  | _, _, _, .grouping span hopening hinner hclosing =>
      readsAs_grouping span hopening hinner.readsAs hclosing
  | _, _, _, .conversion span hkeyword hopening hvalue hclosing =>
      readsAs_conversion span hkeyword hopening hvalue.readsAs hclosing
  | _, _, _, .call span hcallee harguments =>
      readsAs_call span hcallee harguments.head?_kind harguments.readAs
  | _, _, _, .percent span hoperand hsign => readsAs_percent span hoperand.readsAs hsign
  | _, _, _, .unary span hsign hsame hoperand =>
      readsAs_unary span hsign hsame hoperand.readsAs
  | _, _, _, .next span hkeyword hcoroutine => readsAs_next span hkeyword hcoroutine.readsAs
  | _, _, _, .create span hkeyword hcall => readsAs_create span hkeyword hcall.readsAs
  | _, _, _, .exponent span hsign hsame hleft hright =>
      readsAs_exponent span hsign hsame hleft.readsAs hright.readsAs
  | _, _, _, .percentOf span hsign hsame hleft hright hfirst =>
      readsAs_percentOf span hsign hsame hleft.readsAs hright.readsAs (by
        obtain ⟨first, others, rfl, hkind⟩ := hright.words_eq_cons
        obtain ⟨hplus, hdash⟩ := hfirst first rfl
        exact ⟨first, others, rfl, by simpa [hplus, hdash] using hkind⟩)
  | _, _, _, .binary span hsign hsame hleft hright =>
      readsAs_binary span hsign hsame hleft.readsAs hright.readsAs
  | level, _, _, .tighter _ htree => fun htokens hrest hdepth hfloor hceiling =>
      htree.readsAs htokens hrest hdepth (Nat.le_trans hfloor level.floor_le_tighter)
        (Nat.le_trans hceiling level.ceiling_le_tighter)

theorem SpellsArguments.readAs :
    ∀ {arguments : List Expr} {words : List Token}, SpellsArguments arguments words →
      ArgumentsReadAs arguments words
  | _, _, .empty hopening hclosing => argumentsReadAs_empty hopening hclosing
  | _, _, .items hopening harguments hclosing =>
      argumentsReadAs_items hopening harguments.readsAs harguments.words_eq_cons hclosing

theorem SpellsSeparated.readsAs :
    ∀ {trees : List Expr} {words : List Token}, SpellsSeparated trees words →
      SeparatedReadsAs trees words
  | _, _, .last htree => separatedReadsAs_last htree.readsAs
  | _, _, .cons htree hcomma htrees =>
      separatedReadsAs_cons htree.readsAs hcomma htrees.readsAs

end

/-- Whoever spells an expression gets it back: words that spell `tree`, before a
token that goes on with no expression, are read as `tree`, spans aside, and the
reader stops at that token. -/
theorem Grammar.expr_of_spells {tree : Expr} {words rest : List Token} {stop : Token}
    {cursor : Cursor} (hwords : Spells .logical tree words)
    (hstop : (standard.power? stop.kind).getD .lowest = .lowest)
    (htokens : cursor.tokens = words ++ stop :: rest) :
    ∃ found after, standard.expr .lowest cursor = (.ok found, after) ∧
      found.unspanned = tree.unspanned ∧ after.tokens = stop :: rest := by
  have hpercent : stop.kind ≠ .percent := by
    intro hkind
    simp [hkind, standard] at hstop
  have hpower : standard.powerBefore (stop :: rest) = .lowest := powerBefore_cons hpercent hstop
  have hread : ReadsAs .logical tree words := hwords.readsAs
  exact hread.whole htokens (List.cons_ne_nil _ _) hpower (Nat.le_refl _)

-- The first percent sign stands behind its operand, the second between two.
theorem Grammar.expr_of_spells_percent_of_power :
    ∃ found after,
      standard.expr .lowest
          ⟨⟨.dash, "-", default⟩,
            [⟨.identifier, "a", default⟩, ⟨.caret, "^", default⟩, ⟨.identifier, "b", default⟩,
              ⟨.percent, "%", default⟩, ⟨.percent, "%", default⟩, ⟨.identifier, "c", default⟩,
              ⟨.semicolon, ";", default⟩], default⟩ = (.ok found, after) ∧
        found.unspanned =
          (Expr.binary
            (.binary (.unary ⟨.dash, "-", default⟩ (.symbol "a" default) default)
              ⟨.caret, "^", default⟩ (.percent (.symbol "b" default) default) default)
            ⟨.percent, "%", default⟩ (.symbol "c" default) default).unspanned ∧
        after.tokens = [⟨.semicolon, ";", default⟩] := by
  have hname : ∀ name : String,
      Spells .trailing (.symbol name default) [⟨.identifier, name, default⟩] := by
    intro name
    have hword : (⟨.identifier, name, default⟩ : Token).kind = .identifier := rfl
    exact .tighter (by decide) (.symbol default hword)
  have hbase : Spells .unary (.unary ⟨.dash, "-", default⟩ (.symbol "a" default) default)
      [⟨.dash, "-", default⟩, ⟨.identifier, "a", default⟩] :=
    .unary _ (by decide) ⟨rfl, rfl⟩ (.tighter (by decide) (hname "a"))
  have hexponent : Spells .unary (.percent (.symbol "b" default) default)
      [⟨.identifier, "b", default⟩, ⟨.percent, "%", default⟩] :=
    .tighter (by decide) (.percent _ (hname "b") rfl)
  have hcaret : (⟨.caret, "^", default⟩ : Token).kind = .caret := rfl
  have hpercent : (⟨.percent, "%", default⟩ : Token).kind = .percent := rfl
  have hpower := Spells.exponent default hcaret ⟨rfl, rfl⟩ hbase (.tighter (by decide) hexponent)
  have hwhole := Spells.percentOf default hpercent ⟨rfl, rfl⟩ (.tighter (by decide) hpower)
    (.tighter (by decide) (.tighter (by decide) (hname "c"))) (by rintro _ ⟨⟩; decide)
  exact expr_of_spells
    (.tighter (by decide) (.tighter (by decide) (.tighter (by decide) hwhole))) rfl rfl

end Coroscript
