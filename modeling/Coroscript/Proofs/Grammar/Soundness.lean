import Coroscript.Proofs.Grammar.Steps

namespace Coroscript

/-! What the reader of expressions returns is spelled by the words it took. -/

namespace Cursor

def Ended (cursor : Cursor) : Prop :=
  ∃ mark, cursor.tokens.getLast? = some mark ∧ mark.kind = .eof

theorem ended_of_getLast? {tokens words : List Token} {cursor : Cursor} {mark : Token}
    (hlast : tokens.getLast? = some mark) (hmark : mark.kind = .eof)
    (htokens : tokens = words ++ cursor.tokens) : cursor.Ended := by
  refine ⟨mark, ?_, hmark⟩
  rw [htokens, List.getLast?_append] at hlast
  cases hend : cursor.tokens.getLast? with
  | none => simp [Cursor.tokens] at hend
  | some last => simpa [hend] using hlast

theorem Ended.suffix {cursor after : Cursor} {words : List Token} (hended : cursor.Ended)
    (htokens : cursor.tokens = words ++ after.tokens) : after.Ended := by
  obtain ⟨mark, hlast, hmark⟩ := hended
  exact ended_of_getLast? hlast hmark htokens

theorem Ended.step {cursor : Cursor} (hended : cursor.Ended)
    (hkind : cursor.current.kind ≠ .eof) :
    cursor.tokens = cursor.current :: cursor.advance.tokens ∧ cursor.advance.Ended := by
  have hrest : cursor.rest ≠ [] := by
    intro hrest
    obtain ⟨mark, hmark, heof⟩ := hended
    simp only [tokens, hrest, List.getLast?_singleton, Option.some.injEq] at hmark
    exact hkind (hmark ▸ heof)
  have hadvance : cursor.advance.tokens = cursor.rest := tokens_advance rfl hrest
  have htokens : cursor.tokens = [cursor.current] ++ cursor.advance.tokens := by
    rw [hadvance]
    rfl
  exact ⟨htokens, hended.suffix htokens⟩

end Cursor

namespace Parser

theorem advance_eq_ok {cursor after : Cursor} {token : Token}
    (hadvance : advance cursor = (.ok token, after)) :
    token = cursor.current ∧ after = cursor.advance := by
  simp only [advance, Prod.mk.injEq, Except.ok.injEq] at hadvance
  exact ⟨hadvance.1.symm, hadvance.2.symm⟩

theorem expect_eq_ok {cursor after : Cursor} {token : Token} {kind : TokenKind}
    (hexpect : expect kind cursor = (.ok token, after)) :
    cursor.current.kind = kind ∧ token = cursor.current ∧ after = cursor.advance := by
  unfold expect at hexpect
  split at hexpect
  · rename_i hkind
    exact ⟨hkind, advance_eq_ok hexpect⟩
  · simp [unexpected] at hexpect

end Parser

namespace Stratum

def rank : Stratum → Nat
  | primary => 0
  | trailing => 1
  | unary => 2
  | exponential => 3
  | product => 4
  | sum => 5
  | comparison => 6
  | logical => 7

theorem rank_injective {left right : Stratum} (hrank : left.rank = right.rank) :
    left = right := by
  cases left <;> cases right <;> first | rfl | contradiction

theorem rank_tighter (level : Stratum) : level.tighter.rank = level.rank - 1 := by
  cases level <;> rfl

end Stratum

theorem Spells.loosen {level looser : Stratum} {tree : Expr} {words : List Token}
    (hlevel : level.rank ≤ looser.rank) (htree : Spells level tree words) :
    Spells looser tree words := by
  induction hrank : looser.rank generalizing looser with
  | zero =>
      have hsame : level = looser := Stratum.rank_injective (by omega)
      exact hsame ▸ htree
  | succ rank ih =>
      by_cases hsame : level.rank = looser.rank
      · exact Stratum.rank_injective hsame ▸ htree
      · have hrankTighter := looser.rank_tighter
        refine .tighter ?_ (ih (by omega) (by omega))
        rintro rfl
        contradiction

theorem Spells.call_primary {level : Stratum} {callee : String} {arguments : List Expr}
    {span : Span} {words : List Token} (hcall : Spells level (.call callee arguments span) words) :
    Spells .primary (.call callee arguments span) words := by
  induction hrank : level.rank generalizing level with
  | zero =>
      have hlevel : level = .primary := Stratum.rank_injective hrank
      exact hlevel ▸ hcall
  | succ rank ih =>
      cases hcall with
      | call _ hcallee harguments => contradiction
      -- No level but the tightest has calls of its own.
      | tighter _ htree => exact ih htree (by rw [Stratum.rank_tighter, hrank]; rfl)

theorem Spells.symbol_word {level : Stratum} {name : String} {span : Span} {words : List Token}
    (hsymbol : Spells level (.symbol name span) words) :
    ∃ word, words = [word] ∧ word.kind = .identifier ∧ word.value = name := by
  induction hrank : level.rank generalizing level with
  | zero =>
      cases hsymbol with
      | symbol _ hword => exact ⟨_, rfl, hword, rfl⟩
      | tighter hlevel _ => exact absurd (Stratum.rank_injective hrank) hlevel
  | succ rank ih =>
      cases hsymbol with
      | symbol _ _ => contradiction
      | tighter _ htree => exact ih htree (by rw [Stratum.rank_tighter, hrank]; rfl)

/-- The level of the expressions that are read in a context. Signs and keywords
in front of an operand are read in every context. -/
def Power.stratum : Power → Stratum
  | lowest => .logical
  | logical => .comparison
  | relational => .sum
  | additive => .product
  | multiplicative => .exponential
  | exponential | unary | trailing | call | primary => .unary

namespace Grammar

open Coroscript.Parser

/-- A reader of operands that returns only what is spelled by the words it took,
and that stops before a word which its context leaves alone. -/
def Faithful (recurse : Power → Parser Expr) : Prop :=
  ∀ {power : Power} {cursor after : Cursor} {tree : Expr}, cursor.Ended →
    recurse power cursor = (.ok tree, after) →
    ∃ words, cursor.tokens = words ++ after.tokens ∧ Spells power.stratum tree words ∧
      (standard.powerBefore after.tokens).rank ≤ power.rank

section Rules

variable {recurse : Power → Parser Expr} {cursor after : Cursor}

/-! Lists of operands. -/

theorem separated_sound (hrecurse : Faithful recurse) {bound : Nat} {trees : List Expr}
    (hended : cursor.Ended)
    (hread : separated (recurse .lowest) bound cursor = (.ok trees, after)) :
    ∃ words, cursor.tokens = words ++ after.tokens ∧ SpellsSeparated trees words := by
  induction bound generalizing cursor trees with
  | zero => simp [separated, unexpected] at hread
  | succ bound ih =>
      rw [separated, Action.bind_eq_ok_iff] at hread
      obtain ⟨tree, middle, htree, hread⟩ := hread
      obtain ⟨words, hwords, hspells, -⟩ := hrecurse hended htree
      have hmiddle := hended.suffix hwords
      rw [Action.bind_apply] at hread
      simp only [kind, Action.gets_apply] at hread
      split at hread
      · rename_i hcomma
        rw [Action.bind_eq_ok_iff] at hread
        obtain ⟨comma, behind, hadvance, hread⟩ := hread
        obtain ⟨rfl, rfl⟩ := advance_eq_ok hadvance
        rw [Action.bind_eq_ok_iff] at hread
        obtain ⟨others, final, hothers, hread⟩ := hread
        obtain ⟨rfl, rfl⟩ := Action.pure_eq_ok_iff.1 hread
        obtain ⟨hstep, hbehind⟩ := hmiddle.step (by rw [hcomma]; decide)
        obtain ⟨more, hmore, hseparated⟩ := ih hbehind hothers
        refine ⟨words ++ middle.current :: more, ?_, .cons hspells hcomma hseparated⟩
        rw [hwords, hstep, hmore]
        simp
      · obtain ⟨rfl, rfl⟩ := Action.pure_eq_ok_iff.1 hread
        exact ⟨words, hwords, .last hspells⟩

theorem parenthesised_sound (hrecurse : Faithful recurse) {trees : List Expr}
    (hended : cursor.Ended)
    (hread : parenthesised (recurse .lowest) cursor = (.ok trees, after)) :
    ∃ words, cursor.tokens = words ++ after.tokens ∧ SpellsArguments trees words := by
  rw [parenthesised, Action.bind_eq_ok_iff] at hread
  obtain ⟨opening, middle, hopening, hread⟩ := hread
  obtain ⟨hkind, rfl, rfl⟩ := expect_eq_ok hopening
  obtain ⟨hstep, hmiddle⟩ := hended.step (by rw [hkind]; decide)
  rw [Action.bind_apply] at hread
  simp only [Parser.kind, Action.gets_apply] at hread
  split at hread
  · rename_i hclosing
    rw [Action.bind_eq_ok_iff] at hread
    obtain ⟨closing, behind, hadvance, hread⟩ := hread
    obtain ⟨rfl, rfl⟩ := advance_eq_ok hadvance
    obtain ⟨rfl, rfl⟩ := Action.pure_eq_ok_iff.1 hread
    refine ⟨[cursor.current, cursor.advance.current], ?_, .empty hkind hclosing⟩
    rw [hstep, (hmiddle.step (by rw [hclosing]; decide)).1]
    rfl
  · obtain ⟨items, behind, hitems, hread⟩ := Action.bind_eq_ok_iff.1 hread
    obtain ⟨closing, final, hclosing, hread⟩ := Action.bind_eq_ok_iff.1 hread
    obtain ⟨hclose, rfl, rfl⟩ := expect_eq_ok hclosing
    obtain ⟨rfl, rfl⟩ := Action.pure_eq_ok_iff.1 hread
    obtain ⟨words, hwords, hseparated⟩ := separated_sound hrecurse hmiddle hitems
    have hbehind := hmiddle.suffix hwords
    refine ⟨cursor.current :: words ++ [behind.current], ?_, .items hkind hseparated hclose⟩
    rw [hstep, hwords, (hbehind.step (by rw [hclose]; decide)).1]
    simp

/-! What the first word of an expression starts. -/

theorem leaf?_of_primary {tree : Expr} (hread : primary cursor = (.ok tree, after)) :
    leaf? cursor.current = some tree ∧ after = cursor.advance := by
  cases hleaf : leaf? cursor.current with
  | some leaf =>
      rw [primary_of_leaf? hleaf] at hread
      simp only [Prod.mk.injEq, Except.ok.injEq] at hread
      exact ⟨by rw [hread.1], hread.2.symm⟩
  | none =>
      rw [primary, Action.bind_of_ok (Action.gets_apply Cursor.current cursor)] at hread
      cases hkind : cursor.current.kind <;> simp [hkind, leaf?, unexpected] at hleaf hread

theorem spells_leaf {word : Token} {tree : Expr} (hleaf : leaf? word = some tree) :
    word.kind ≠ .eof ∧ Spells .primary tree [word] := by
  unfold leaf? at hleaf
  split at hleaf
  · rename_i hkind
    exact ⟨by rw [hkind]; decide, Option.some.inj hleaf ▸ .number _ hkind⟩
  · rename_i hkind
    exact ⟨by rw [hkind]; decide, Option.some.inj hleaf ▸ .symbol _ hkind⟩
  · rename_i hkind
    exact ⟨by rw [hkind]; decide, Option.some.inj hleaf ▸ .string _ hkind⟩
  · contradiction

theorem primary_sound {tree : Expr} (hended : cursor.Ended)
    (hread : primary cursor = (.ok tree, after)) :
    ∃ words, cursor.tokens = words ++ after.tokens ∧ Spells .primary tree words := by
  obtain ⟨hleaf, rfl⟩ := leaf?_of_primary hread
  obtain ⟨hkind, hspells⟩ := spells_leaf hleaf
  exact ⟨[cursor.current], (hended.step hkind).1, hspells⟩

theorem operand_sound (hrecurse : Faithful recurse) {inner : Power} {tree : Expr}
    {finish : Token → Expr → Parser Expr} (hended : cursor.Ended)
    (hkind : cursor.current.kind ≠ .eof)
    (hread : (advance >>= fun word => recurse inner >>= finish word) cursor =
      (.ok tree, after)) :
    ∃ operand words middle, finish cursor.current operand middle = (.ok tree, after) ∧
      cursor.tokens = cursor.current :: words ++ middle.tokens ∧
      cursor.advance.tokens = words ++ middle.tokens ∧ Spells inner.stratum operand words ∧
      (standard.powerBefore middle.tokens).rank ≤ inner.rank := by
  obtain ⟨word, middle, hadvance, hread⟩ := Action.bind_eq_ok_iff.1 hread
  obtain ⟨rfl, rfl⟩ := advance_eq_ok hadvance
  obtain ⟨hstep, hmiddle⟩ := hended.step hkind
  obtain ⟨operand, behind, hoperand, hread⟩ := Action.bind_eq_ok_iff.1 hread
  obtain ⟨words, hwords, hspells, hpower⟩ := hrecurse hmiddle hoperand
  refine ⟨operand, words, behind, hread, ?_, hwords, hspells, hpower⟩
  rw [hstep, hwords]
  rfl

theorem enclosed_sound (hrecurse : Faithful recurse) {tree : Expr}
    {finish : Expr → Token → Parser Expr} (hended : cursor.Ended)
    (hread : (recurse .lowest >>= fun inner => expect .closeParen >>= finish inner) cursor =
      (.ok tree, after)) :
    ∃ inner words closing middle, finish inner closing middle = (.ok tree, after) ∧
      closing.kind = .closeParen ∧ cursor.tokens = words ++ closing :: middle.tokens ∧
      Spells .logical inner words := by
  obtain ⟨inner, behind, hinner, hread⟩ := Action.bind_eq_ok_iff.1 hread
  obtain ⟨words, hwords, hspells, -⟩ := hrecurse hended hinner
  obtain ⟨closing, final, hclosing, hread⟩ := Action.bind_eq_ok_iff.1 hread
  obtain ⟨hclose, rfl, rfl⟩ := expect_eq_ok hclosing
  obtain ⟨hstep, -⟩ := (hended.suffix hwords).step (by rw [hclose]; decide)
  exact ⟨inner, words, behind.current, behind.advance, hread, hclose, hstep ▸ hwords, hspells⟩

theorem grouping_sound (hrecurse : Faithful recurse) {tree : Expr} (hended : cursor.Ended)
    (hkind : cursor.current.kind = .openParen)
    (hread : grouping recurse cursor = (.ok tree, after)) :
    ∃ words, cursor.tokens = words ++ after.tokens ∧ Spells .primary tree words := by
  obtain ⟨opening, middle, hadvance, hread⟩ := Action.bind_eq_ok_iff.1 hread
  obtain ⟨rfl, rfl⟩ := advance_eq_ok hadvance
  obtain ⟨hstep, hmiddle⟩ := hended.step (by rw [hkind]; decide)
  obtain ⟨inner, words, closing, behind, hread, hclosing, hwords, hspells⟩ :=
    enclosed_sound hrecurse hmiddle hread
  obtain ⟨rfl, rfl⟩ := Action.pure_eq_ok_iff.1 hread
  refine ⟨cursor.current :: words ++ [closing], ?_, .grouping _ hkind hspells hclosing⟩
  rw [hstep, hwords]
  simp

theorem conversion_sound (hrecurse : Faithful recurse) {tree : Expr} (hended : cursor.Ended)
    (hkind : cursor.current.kind = .keyInt ∨ cursor.current.kind = .keyFloat)
    (hread : conversion recurse cursor = (.ok tree, after)) :
    ∃ words, cursor.tokens = words ++ after.tokens ∧ Spells .primary tree words := by
  obtain ⟨keyword, middle, hadvance, hread⟩ := Action.bind_eq_ok_iff.1 hread
  obtain ⟨rfl, rfl⟩ := advance_eq_ok hadvance
  obtain ⟨hstep, hmiddle⟩ := hended.step (by rcases hkind with h | h <;> rw [h] <;> decide)
  obtain ⟨opening, body, hopening, hread⟩ := Action.bind_eq_ok_iff.1 hread
  obtain ⟨hopen, rfl, rfl⟩ := expect_eq_ok hopening
  obtain ⟨hparen, hbody⟩ := hmiddle.step (by rw [hopen]; decide)
  obtain ⟨value, words, closing, behind, hread, hclosing, hwords, hspells⟩ :=
    enclosed_sound hrecurse hbody hread
  obtain ⟨rfl, rfl⟩ := Action.pure_eq_ok_iff.1 hread
  refine ⟨cursor.current :: cursor.advance.current :: words ++ [closing], ?_,
    .conversion _ ?_ hopen hspells hclosing⟩
  · rw [hstep, hparen, hwords]
    simp
  · rcases hkind with hint | hfloat
    · rw [if_pos hint, hint]
      rfl
    · rw [hfloat]
      rfl

theorem unary_sound (hrecurse : Faithful recurse) {tree : Expr} (hended : cursor.Ended)
    (hkind : cursor.current.kind ∈ TokenKind.signs)
    (hread : unary recurse cursor = (.ok tree, after)) :
    ∃ words, cursor.tokens = words ++ after.tokens ∧ Spells .unary tree words ∧
      (standard.powerBefore after.tokens).rank ≤ Power.unary.rank := by
  have heof : cursor.current.kind ≠ .eof := by
    intro heof
    rw [heof] at hkind
    contradiction
  obtain ⟨operand, words, middle, hread, htokens, -, hspells, hpower⟩ :=
    operand_sound hrecurse hended heof hread
  obtain ⟨rfl, rfl⟩ := Action.pure_eq_ok_iff.1 hread
  exact ⟨cursor.current :: words, htokens, .unary _ hkind ⟨rfl, rfl⟩ hspells, hpower⟩

theorem next_sound (hrecurse : Faithful recurse) {tree : Expr} (hended : cursor.Ended)
    (hkind : cursor.current.kind = .keyNext) (hread : next recurse cursor = (.ok tree, after)) :
    ∃ words, cursor.tokens = words ++ after.tokens ∧ Spells .unary tree words ∧
      (standard.powerBefore after.tokens).rank ≤ Power.unary.rank := by
  obtain ⟨coroutine, words, middle, hread, htokens, -, hspells, hpower⟩ :=
    operand_sound hrecurse hended (by rw [hkind]; decide) hread
  obtain ⟨rfl, rfl⟩ := Action.pure_eq_ok_iff.1 hread
  exact ⟨cursor.current :: words, htokens, .next _ hkind hspells, hpower⟩

theorem create_sound (hrecurse : Faithful recurse) {tree : Expr} (hended : cursor.Ended)
    (hkind : cursor.current.kind = .keyCreateCoroutine)
    (hread : create recurse cursor = (.ok tree, after)) :
    ∃ words, cursor.tokens = words ++ after.tokens ∧ Spells .unary tree words ∧
      (standard.powerBefore after.tokens).rank ≤ Power.unary.rank := by
  obtain ⟨target, words, middle, hread, htokens, -, hspells, hpower⟩ :=
    operand_sound hrecurse hended (by rw [hkind]; decide) hread
  cases target with
  | call callee arguments span =>
      obtain ⟨rfl, rfl⟩ := Action.pure_eq_ok_iff.1 hread
      exact ⟨cursor.current :: words, htokens, .create _ hkind hspells.call_primary, hpower⟩
  | _ => simp at hread

/-- The operand `tree` that is read so far of `start`, up to `after`, in the context
`power`. A word of higher power behind it takes the whole operand, not a part. -/
def Operand (power : Power) (start : List Token) (tree : Expr) (after : Cursor) : Prop :=
  ∃ level words, start = words ++ after.tokens ∧ Spells level tree words ∧
    level.rank ≤ power.stratum.rank ∧
    (level = .primary ∨ (standard.powerBefore after.tokens).rank ≤ level.ceiling.rank)

theorem Operand.of_primary {power : Power} {start words : List Token} {tree : Expr}
    (hstart : start = words ++ after.tokens) (hspells : Spells .primary tree words) :
    Operand power start tree after :=
  ⟨.primary, words, hstart, hspells, Nat.zero_le _, .inl rfl⟩

theorem Operand.of_unary {power : Power} {start words : List Token} {tree : Expr}
    (hstart : start = words ++ after.tokens) (hspells : Spells .unary tree words)
    (hpower : (standard.powerBefore after.tokens).rank ≤ Power.unary.rank) :
    Operand power start tree after :=
  ⟨.unary, words, hstart, hspells, by cases power <;> decide, .inr hpower⟩

theorem lead_sound (hrecurse : Faithful recurse) {power : Power} {rule : LeadRule} {tree : Expr}
    (hended : cursor.Ended) (hrule : standard.lead? cursor.current.kind = some rule)
    (hread : lead recurse rule cursor = (.ok tree, after)) :
    Operand power cursor.tokens tree after := by
  cases rule with
  | primary =>
      obtain ⟨words, hwords, hspells⟩ := primary_sound hended hread
      exact .of_primary hwords hspells
  | unary =>
      have hkind : cursor.current.kind ∈ TokenKind.signs := by
        revert hrule
        cases cursor.current.kind <;> decide
      obtain ⟨words, hwords, hspells, hpower⟩ := unary_sound hrecurse hended hkind hread
      exact .of_unary hwords hspells hpower
  | grouping =>
      have hkind : cursor.current.kind = .openParen := by
        revert hrule
        cases cursor.current.kind <;> decide
      obtain ⟨words, hwords, hspells⟩ := grouping_sound hrecurse hended hkind hread
      exact .of_primary hwords hspells
  | conversion =>
      have hkind : cursor.current.kind = .keyInt ∨ cursor.current.kind = .keyFloat := by
        revert hrule
        cases cursor.current.kind <;> decide
      obtain ⟨words, hwords, hspells⟩ := conversion_sound hrecurse hended hkind hread
      exact .of_primary hwords hspells
  | next =>
      have hkind : cursor.current.kind = .keyNext := by
        revert hrule
        cases cursor.current.kind <;> decide
      obtain ⟨words, hwords, hspells, hpower⟩ := next_sound hrecurse hended hkind hread
      exact .of_unary hwords hspells hpower
  | create =>
      have hkind : cursor.current.kind = .keyCreateCoroutine := by
        revert hrule
        cases cursor.current.kind <;> decide
      obtain ⟨words, hwords, hspells, hpower⟩ := create_sound hrecurse hended hkind hread
      exact .of_unary hwords hspells hpower

/-! What goes on after an operand. -/

theorem Operand.left {power : Power} {start : List Token} {tree : Expr}
    (hleft : Operand power start tree cursor) (level : Stratum)
    (hlevel : ∀ other : Stratum, (standard.powerBefore cursor.tokens).rank ≤ other.ceiling.rank →
      other.rank ≤ level.rank) :
    ∃ words, start = words ++ cursor.tokens ∧ Spells level tree words := by
  obtain ⟨other, words, hstart, hspells, -, rfl | hother⟩ := hleft
  · exact ⟨words, hstart, hspells.loosen (Nat.zero_le _)⟩
  · exact ⟨words, hstart, hspells.loosen (hlevel other hother)⟩

theorem binary_sound (hrecurse : Faithful recurse) {inner : Power} {left tree : Expr}
    (hended : cursor.Ended) (hkind : cursor.current.kind ≠ .eof)
    (hread : binary recurse left inner cursor = (.ok tree, after)) :
    ∃ right span words, tree = .binary left cursor.current right span ∧
      cursor.tokens = cursor.current :: words ++ after.tokens ∧
      cursor.advance.tokens = words ++ after.tokens ∧ Spells inner.stratum right words ∧
      (standard.powerBefore after.tokens).rank ≤ inner.rank := by
  obtain ⟨right, words, middle, hread, htokens, hadvance, hspells, hpower⟩ :=
    operand_sound hrecurse hended hkind hread
  obtain ⟨rfl, rfl⟩ := Action.pure_eq_ok_iff.1 hread
  exact ⟨right, _, words, rfl, htokens, hadvance, hspells, hpower⟩

/-- An operator between two operands belongs to a level: its right operand is read
one level tighter, and its left operand is of the level. -/
theorem level_of_follow? {kind : TokenKind} (hrule : standard.follow? kind = some .binary) :
    ∃ level : Stratum, kind ∈ level.operators ∧ level.ceiling.stratum = level.tighter ∧
      (∀ other : Stratum, level.ceiling.rank ≤ other.ceiling.rank → other.rank ≤ level.rank) ∧
      ∀ power : Power, power.rank < level.ceiling.rank → level.rank ≤ power.stratum.rank := by
  have hlevels : ∀ level ∈ [Stratum.product, .sum, .comparison, .logical],
      level.ceiling.stratum = level.tighter ∧
        (∀ other : Stratum, level.ceiling.rank ≤ other.ceiling.rank →
          other.rank ≤ level.rank) ∧
        ∀ power : Power, power.rank < level.ceiling.rank → level.rank ≤ power.stratum.rank := by
    intro level hlevel
    simp only [List.mem_cons, List.not_mem_nil, or_false] at hlevel
    refine ⟨?_, fun other => ?_, fun power => ?_⟩
    · rcases hlevel with rfl | rfl | rfl | rfl <;> rfl
    · rcases hlevel with rfl | rfl | rfl | rfl <;> cases other <;> decide
    · rcases hlevel with rfl | rfl | rfl | rfl <;> cases power <;> decide
  cases kind <;> first
    | contradiction
    | exact ⟨.logical, by decide, hlevels _ (by decide)⟩
    | exact ⟨.comparison, by decide, hlevels _ (by decide)⟩
    | exact ⟨.sum, by decide, hlevels _ (by decide)⟩
    | exact ⟨.product, by decide, hlevels _ (by decide)⟩

theorem follow_binary_sound (hrecurse : Faithful recurse) {power : Power} {start : List Token}
    {left tree : Expr} (hended : cursor.Ended) (hleft : Operand power start left cursor)
    (hpower : power.rank < (standard.powerBefore cursor.tokens).rank)
    (hrule : standard.follow? cursor.current.kind = some .binary)
    (hread : binary recurse left (standard.powerBefore cursor.tokens) cursor =
      (.ok tree, after)) :
    Operand power start tree after := by
  obtain ⟨level, hkind, hstratum, hother, hcontext⟩ := level_of_follow? hrule
  obtain ⟨hpercent, -, hsignPower, -, -⟩ := Stratum.operator_facts hkind
  have hceiling : standard.powerBefore cursor.tokens = level.ceiling :=
    powerBefore_cons hpercent (by rw [hsignPower]; rfl)
  have heof : cursor.current.kind ≠ .eof := by
    intro heof
    rw [heof] at hrule
    contradiction
  obtain ⟨leftWords, hstart, hleftSpells⟩ := hleft.left level (hceiling ▸ hother)
  rw [hceiling] at hpower hread
  obtain ⟨right, span, words, rfl, htokens, -, hright, hbehind⟩ :=
    binary_sound hrecurse hended heof hread
  refine ⟨level, leftWords ++ cursor.current :: words, ?_,
    .binary span hkind ⟨rfl, rfl⟩ hleftSpells (hstratum ▸ hright), hcontext power hpower,
    .inr hbehind⟩
  rw [hstart, htokens]
  simp

theorem follow_exponent_sound (hrecurse : Faithful recurse) {power : Power} {start : List Token}
    {left tree : Expr} (hended : cursor.Ended) (hleft : Operand power start left cursor)
    (hpower : power.rank < (standard.powerBefore cursor.tokens).rank)
    (hkind : cursor.current.kind = .caret)
    (hread : binary recurse left .multiplicative cursor = (.ok tree, after)) :
    Operand power start tree after := by
  have hexponential : standard.powerBefore cursor.tokens = .exponential :=
    powerBefore_cons (by rw [hkind]; decide) (by rw [hkind]; rfl)
  obtain ⟨leftWords, hstart, hleftSpells⟩ := hleft.left .unary (by
    intro other
    rw [hexponential]
    cases other <;> decide)
  obtain ⟨right, span, words, rfl, htokens, -, hright, hbehind⟩ :=
    binary_sound hrecurse hended (by rw [hkind]; decide) hread
  refine ⟨.exponential, leftWords ++ cursor.current :: words, ?_,
    .exponent span hkind ⟨rfl, rfl⟩ hleftSpells hright, ?_, .inr hbehind⟩
  · rw [hstart, htokens]
    simp
  · rw [hexponential] at hpower
    revert hpower
    cases power <;> decide

theorem follow_percentOf_sound (hrecurse : Faithful recurse) {power : Power}
    {start : List Token} {left tree : Expr} (hended : cursor.Ended)
    (hleft : Operand power start left cursor)
    (hpower : power.rank < (standard.powerBefore cursor.tokens).rank)
    (hkind : cursor.current.kind = .percent)
    (hmultiplicative : standard.powerBefore cursor.tokens = .multiplicative)
    (hstarts : startsOperand cursor.advance.current.kind = true)
    (hread : binary recurse left .multiplicative cursor = (.ok tree, after)) :
    Operand power start tree after := by
  obtain ⟨leftWords, hstart, hleftSpells⟩ := hleft.left .product (by
    intro other
    rw [hmultiplicative]
    cases other <;> decide)
  obtain ⟨right, span, words, rfl, htokens, hadvance, hright, hbehind⟩ :=
    binary_sound hrecurse hended (by rw [hkind]; decide) hread
  -- The word behind the sign is the first of the right operand.
  have hfirst : ∀ first ∈ words.head?, first.kind ≠ .plus ∧ first.kind ≠ .dash := by
    obtain ⟨first, others, rfl, -⟩ := hright.words_eq_cons
    have hcurrent : cursor.advance.current = first := Cursor.current_eq hadvance
    rintro _ ⟨⟩
    rw [hcurrent] at hstarts
    constructor <;> intro hfirst <;> rw [hfirst] at hstarts <;> contradiction
  refine ⟨.product, leftWords ++ cursor.current :: words, ?_,
    .percentOf span hkind ⟨rfl, rfl⟩ hleftSpells hright hfirst, ?_, .inr hbehind⟩
  · rw [hstart, htokens]
    simp
  · rw [hmultiplicative] at hpower
    revert hpower
    cases power <;> decide

theorem powerBefore_le_trailing {token : Token} {rest : List Token}
    (hstarts : startsOperand token.kind = false) :
    (standard.powerBefore (token :: rest)).rank ≤ Power.trailing.rank := by
  rw [powerBefore]
  split
  · split <;> decide
  · revert hstarts
    cases token.kind <;> decide

theorem follow_percent_sound {power : Power} {start : List Token} {left : Expr} {span : Span}
    (hended : cursor.Ended) (hleft : Operand power start left cursor)
    (hkind : cursor.current.kind = .percent)
    (htrailing : standard.powerBefore cursor.tokens = .trailing)
    (hstarts : startsOperand cursor.advance.current.kind = false) :
    Operand power start (.percent left span) cursor.advance := by
  obtain ⟨leftWords, hstart, hleftSpells⟩ := hleft.left .trailing (by
    intro other
    rw [htrailing]
    cases other <;> decide)
  refine ⟨.trailing, leftWords ++ [cursor.current], ?_, .percent span hleftSpells hkind, ?_,
    .inr (powerBefore_le_trailing hstarts)⟩
  · rw [hstart, (hended.step (by rw [hkind]; decide)).1]
    simp
  · cases power <;> decide

theorem follow_call_sound (hrecurse : Faithful recurse) {power : Power} {start : List Token}
    {left tree : Expr} (hended : cursor.Ended) (hleft : Operand power start left cursor)
    (hread : call recurse left cursor = (.ok tree, after)) :
    Operand power start tree after := by
  cases left with
  | symbol callee span =>
      obtain ⟨arguments, middle, harguments, hread⟩ := Action.bind_eq_ok_iff.1 hread
      obtain ⟨words, hwords, hspells⟩ := parenthesised_sound hrecurse hended harguments
      obtain ⟨level, leftWords, hstart, hleftSpells, -⟩ := hleft
      obtain ⟨word, rfl, hword, rfl⟩ := hleftSpells.symbol_word
      obtain ⟨stop, behind, hstop, hread⟩ := Action.bind_eq_ok_iff.1 hread
      simp only [previousEnd, Action.gets_apply, Prod.mk.injEq, Except.ok.injEq] at hstop
      obtain ⟨rfl, rfl⟩ := hstop
      obtain ⟨rfl, rfl⟩ := Action.pure_eq_ok_iff.1 hread
      have htokens : start = (word :: words) ++ middle.tokens := by
        rw [hstart, hwords]
        rfl
      exact .of_primary htokens (.call _ hword hspells)
  | _ => simp [call, Action.bind_apply] at hread

theorem follow_sound (hrecurse : Faithful recurse) {power : Power} {start : List Token}
    {rule : FollowRule} {left tree : Expr} (hended : cursor.Ended)
    (hleft : Operand power start left cursor)
    (hpower : power.rank < (standard.powerBefore cursor.tokens).rank)
    (hrule : standard.follow? cursor.current.kind = some rule)
    (hread : follow recurse rule left (standard.powerBefore cursor.tokens) cursor =
      (.ok tree, after)) :
    Operand power start tree after := by
  cases rule with
  | binary => exact follow_binary_sound hrecurse hended hleft hpower hrule hread
  | exponent =>
      have hkind : cursor.current.kind = .caret := by
        revert hrule
        cases cursor.current.kind <;> decide
      exact follow_exponent_sound hrecurse hended hleft hpower hkind hread
  | percent =>
      have hkind : cursor.current.kind = .percent := by
        revert hrule
        cases cursor.current.kind <;> decide
      have htokens := (hended.step (by rw [hkind]; decide)).1
      simp only [follow] at hread
      cases hstarts : startsOperand cursor.advance.current.kind with
      | true =>
          rw [percent_eq_binary hstarts] at hread
          have hsign : standard.powerBefore cursor.tokens = .multiplicative := by
            rw [htokens]
            simp [powerBefore, hkind, Cursor.tokens, hstarts]
          exact follow_percentOf_sound hrecurse hended hleft hpower hkind hsign hstarts hread
      | false =>
          rw [percent_of_not_startsOperand hstarts] at hread
          simp only [Prod.mk.injEq, Except.ok.injEq] at hread
          obtain ⟨rfl, rfl⟩ := hread
          have hsign : standard.powerBefore cursor.tokens = .trailing := by
            rw [htokens]
            simp [powerBefore, hkind, Cursor.tokens, hstarts]
          exact follow_percent_sound hended hleft hkind hsign hstarts
  | call => exact follow_call_sound hrecurse hended hleft hread

theorem operators_sound (hrecurse : Faithful recurse) {power : Power} {start : List Token}
    {bound : Nat} {left tree : Expr} (hstart : ∀ {cursor : Cursor} {words : List Token},
      start = words ++ cursor.tokens → cursor.Ended)
    (hleft : Operand power start left cursor)
    (hread : standard.operators recurse power bound left cursor = (.ok tree, after)) :
    Operand power start tree after ∧
      (standard.powerBefore after.tokens).rank ≤ power.rank := by
  -- Each round keeps an operand of `start`, whatever is still to be read.
  induction bound generalizing left cursor with
  | zero => simp [operators, unexpected] at hread
  | succ bound ih =>
      rw [operators, Action.bind_apply] at hread
      simp only [Action.gets_apply, powerAt_eq] at hread
      split at hread
      · rename_i hpower
        obtain ⟨_, words, hwords, _⟩ := id hleft
        rw [Action.bind_apply] at hread
        simp only [kind, Action.gets_apply] at hread
        cases hrule : standard.follow? cursor.current.kind with
        | none => simp [hrule, unexpected] at hread
        | some rule =>
            simp only [hrule] at hread
            obtain ⟨extended, behind, hextended, hread⟩ := Action.bind_eq_ok_iff.1 hread
            exact ih (follow_sound hrecurse (hstart hwords) hleft hpower hrule hextended) hread
      · rename_i hpower
        obtain ⟨rfl, rfl⟩ := Action.pure_eq_ok_iff.1 hread
        exact ⟨hleft, Nat.not_lt.1 hpower⟩

end Rules

theorem faithful_exprWithin (depth : Nat) : Faithful (standard.exprWithin depth) := by
  induction depth with
  | zero =>
      intro power cursor after tree _ hread
      simp [exprWithin, unexpected] at hread
  | succ depth ih =>
      intro power cursor after tree hended hread
      rw [exprWithin, Action.bind_apply] at hread
      simp only [kind, Action.gets_apply] at hread
      cases hrule : standard.lead? cursor.current.kind with
      | none => simp [hrule, unexpected] at hread
      | some rule =>
          simp only [hrule] at hread
          obtain ⟨left, middle, hleft, hread⟩ := Action.bind_eq_ok_iff.1 hread
          have hoperand : Operand power cursor.tokens left middle :=
            lead_sound ih hended hrule hleft
          obtain ⟨⟨level, words, hwords, hspells, hlevel, -⟩, hpower⟩ :=
            operators_sound ih hended.suffix hoperand hread
          exact ⟨words, hwords, hspells.loosen hlevel, hpower⟩

theorem faithful_expr : Faithful standard.expr :=
  fun hended hread => faithful_exprWithin _ hended hread

end Grammar

end Coroscript
