import Coroscript.Grammar.Expr

namespace Coroscript

/-! The words that spell an expression, level by level. Each level holds tighter
than the one after it; the operators of one level group to the left, and only
powers group to the right. -/

def Token.SameWord (left right : Token) : Prop :=
  left.kind = right.kind ∧ left.value = right.value

/-- The levels of expressions, from the tightest on. -/
inductive Stratum where
  | primary
  | trailing
  | unary
  | exponential
  | product
  | sum
  | comparison
  | logical
deriving DecidableEq, Repr

namespace Stratum

def tighter : Stratum → Stratum
  | primary | trailing => primary
  | unary => trailing
  | exponential => unary
  | product => exponential
  | sum => product
  | comparison => sum
  | logical => comparison

/-- The operators that stand between two operands of a level and group to the
left. A percent sign is not among them: it needs a condition on what follows. -/
def operators : Stratum → List TokenKind
  | product => [.star, .slash]
  | sum => [.plus, .dash]
  | comparison => [.less, .lessEquals, .greater, .greaterEquals, .equals, .notEquals]
  | logical => [.and, .or]
  | _ => []

end Stratum

def TokenKind.signs : List TokenKind :=
  [.dash, .plus, .not]

def NumericType.keyword : NumericType → TokenKind
  | .int => .keyInt
  | .float => .keyFloat

mutual

/-- `Spells level tree words`: `tree` is an expression of `level`, and `words` is
a way to write it. Spans play no part. -/
inductive Spells : Stratum → Expr → List Token → Prop
  | number {word : Token} (span : Span) (hword : word.kind = .number) :
      Spells .primary (.number word.value span) [word]
  | symbol {word : Token} (span : Span) (hword : word.kind = .identifier) :
      Spells .primary (.symbol word.value span) [word]
  | string {word : Token} (span : Span) (hword : word.kind = .string) :
      Spells .primary (.string (Literal.bytes word.value) span) [word]
  | grouping {opening closing : Token} {inner : Expr} {words : List Token} (span : Span)
      (hopening : opening.kind = .openParen) (hinner : Spells .logical inner words)
      (hclosing : closing.kind = .closeParen) :
      Spells .primary (.grouping inner span) (opening :: words ++ [closing])
  | conversion {keyword opening closing : Token} {target : NumericType} {value : Expr}
      {words : List Token} (span : Span) (hkeyword : keyword.kind = target.keyword)
      (hopening : opening.kind = .openParen) (hvalue : Spells .logical value words)
      (hclosing : closing.kind = .closeParen) :
      Spells .primary (.conversion target value span) (keyword :: opening :: words ++ [closing])
  | call {callee : Token} {arguments : List Expr} {words : List Token} (span : Span)
      (hcallee : callee.kind = .identifier) (harguments : SpellsArguments arguments words) :
      Spells .primary (.call callee.value arguments span) (callee :: words)
  | percent {operand : Expr} {words : List Token} {sign : Token} (span : Span)
      (hoperand : Spells .trailing operand words) (hsign : sign.kind = .percent) :
      Spells .trailing (.percent operand span) (words ++ [sign])
  | unary {sign operator : Token} {operand : Expr} {words : List Token} (span : Span)
      (hsign : sign.kind ∈ TokenKind.signs) (hsame : sign.SameWord operator)
      (hoperand : Spells .unary operand words) :
      Spells .unary (.unary operator operand span) (sign :: words)
  | next {keyword : Token} {coroutine : Expr} {words : List Token} (span : Span)
      (hkeyword : keyword.kind = .keyNext) (hcoroutine : Spells .unary coroutine words) :
      Spells .unary (.next coroutine span) (keyword :: words)
  | create {keyword : Token} {callee : String} {arguments : List Expr} {callSpan : Span}
      {words : List Token} (span : Span) (hkeyword : keyword.kind = .keyCreateCoroutine)
      (hcall : Spells .primary (.call callee arguments callSpan) words) :
      Spells .unary (.create callee arguments callSpan span) (keyword :: words)
  | exponent {left right : Expr} {sign operator : Token} {leftWords rightWords : List Token}
      (span : Span) (hsign : sign.kind = .caret) (hsame : sign.SameWord operator)
      (hleft : Spells .unary left leftWords) (hright : Spells .exponential right rightWords) :
      Spells .exponential (.binary left operator right span) (leftWords ++ sign :: rightWords)
  -- A right operand that started with a sign would leave the percent sign to the left one.
  | percentOf {left right : Expr} {sign operator : Token} {leftWords rightWords : List Token}
      (span : Span) (hsign : sign.kind = .percent) (hsame : sign.SameWord operator)
      (hleft : Spells .product left leftWords) (hright : Spells .exponential right rightWords)
      (hfirst : ∀ first ∈ rightWords.head?, first.kind ≠ .plus ∧ first.kind ≠ .dash) :
      Spells .product (.binary left operator right span) (leftWords ++ sign :: rightWords)
  | binary {level : Stratum} {left right : Expr} {sign operator : Token}
      {leftWords rightWords : List Token} (span : Span)
      (hsign : sign.kind ∈ level.operators) (hsame : sign.SameWord operator)
      (hleft : Spells level left leftWords) (hright : Spells level.tighter right rightWords) :
      Spells level (.binary left operator right span) (leftWords ++ sign :: rightWords)
  | tighter {level : Stratum} {tree : Expr} {words : List Token} (hlevel : level ≠ .primary)
      (htree : Spells level.tighter tree words) : Spells level tree words

inductive SpellsArguments : List Expr → List Token → Prop
  | empty {opening closing : Token} (hopening : opening.kind = .openParen)
      (hclosing : closing.kind = .closeParen) : SpellsArguments [] [opening, closing]
  | items {opening closing : Token} {arguments : List Expr} {words : List Token}
      (hopening : opening.kind = .openParen) (harguments : SpellsSeparated arguments words)
      (hclosing : closing.kind = .closeParen) :
      SpellsArguments arguments (opening :: words ++ [closing])

inductive SpellsSeparated : List Expr → List Token → Prop
  | last {tree : Expr} {words : List Token} (htree : Spells .logical tree words) :
      SpellsSeparated [tree] words
  | cons {tree : Expr} {trees : List Expr} {words others : List Token} {comma : Token}
      (htree : Spells .logical tree words) (hcomma : comma.kind = .comma)
      (htrees : SpellsSeparated trees others) :
      SpellsSeparated (tree :: trees) (words ++ comma :: others)

end

/-! The first word of an expression. -/

theorem Grammar.startsOperand_keyword (target : NumericType) :
    startsOperand target.keyword = true := by
  cases target <;> rfl

theorem Spells.words_eq_cons :
    ∀ {level : Stratum} {tree : Expr} {words : List Token}, Spells level tree words →
      ∃ first rest, words = first :: rest ∧
        (Grammar.startsOperand first.kind = true ∨ first.kind = .plus ∨ first.kind = .dash)
  | _, _, _, .number _ hword => ⟨_, _, rfl, .inl (by rw [hword]; rfl)⟩
  | _, _, _, .symbol _ hword => ⟨_, _, rfl, .inl (by rw [hword]; rfl)⟩
  | _, _, _, .string _ hword => ⟨_, _, rfl, .inl (by rw [hword]; rfl)⟩
  | _, _, _, .grouping _ hopening _ _ => ⟨_, _, rfl, .inl (by rw [hopening]; rfl)⟩
  | _, _, _, .conversion _ hkeyword _ _ _ =>
      ⟨_, _, rfl, .inl (hkeyword ▸ Grammar.startsOperand_keyword _)⟩
  | _, _, _, .call _ hcallee _ => ⟨_, _, rfl, .inl (by rw [hcallee]; rfl)⟩
  | _, _, _, .percent _ hoperand _ => by
      obtain ⟨first, rest, rfl, hfirst⟩ := hoperand.words_eq_cons
      exact ⟨first, _, rfl, hfirst⟩
  | _, _, _, .unary _ hsign _ _ => by
      refine ⟨_, _, rfl, ?_⟩
      simp only [TokenKind.signs, List.mem_cons, List.not_mem_nil, or_false] at hsign
      rcases hsign with hdash | hplus | hnot
      · exact .inr (.inr hdash)
      · exact .inr (.inl hplus)
      · exact .inl (by rw [hnot]; rfl)
  | _, _, _, .next _ hkeyword _ => ⟨_, _, rfl, .inl (by rw [hkeyword]; rfl)⟩
  | _, _, _, .create _ hkeyword _ => ⟨_, _, rfl, .inl (by rw [hkeyword]; rfl)⟩
  | _, _, _, .exponent _ _ _ hleft _ => by
      obtain ⟨first, rest, rfl, hfirst⟩ := hleft.words_eq_cons
      exact ⟨first, _, rfl, hfirst⟩
  | _, _, _, .percentOf _ _ _ hleft _ _ => by
      obtain ⟨first, rest, rfl, hfirst⟩ := hleft.words_eq_cons
      exact ⟨first, _, rfl, hfirst⟩
  | _, _, _, .binary _ _ _ hleft _ => by
      obtain ⟨first, rest, rfl, hfirst⟩ := hleft.words_eq_cons
      exact ⟨first, _, rfl, hfirst⟩
  | _, _, _, .tighter _ htree => htree.words_eq_cons

namespace Stratum

/-- The tightest context in which an expression of a level is read whole. -/
def floor : Stratum → Power
  | primary => .trailing
  | trailing | unary => .unary
  | exponential => .multiplicative
  | product => .additive
  | sum => .relational
  | comparison => .logical
  | logical => .lowest

/-- The tightest power that a word may have behind an expression of a level
without drawing the last operand of it away. -/
def ceiling : Stratum → Power
  | primary | trailing => .trailing
  | unary => .unary
  | exponential | product => .multiplicative
  | sum => .additive
  | comparison => .relational
  | logical => .logical

theorem floor_le_tighter (level : Stratum) :
    level.floor.rank ≤ level.tighter.floor.rank := by
  cases level <;> decide

theorem ceiling_le_tighter (level : Stratum) :
    level.ceiling.rank ≤ level.tighter.ceiling.rank := by
  cases level <;> decide

theorem operator_facts {level : Stratum} {kind : TokenKind} (hkind : kind ∈ level.operators) :
    kind ≠ .percent ∧ Grammar.standard.follow? kind = some .binary ∧
      Grammar.standard.power? kind = some level.ceiling ∧
      level.floor.rank < level.ceiling.rank ∧
      level.ceiling.rank ≤ level.tighter.floor.rank := by
  cases level <;> simp only [operators, List.mem_cons, List.not_mem_nil, or_false] at hkind
  · rcases hkind with rfl | rfl <;> decide
  · rcases hkind with rfl | rfl <;> decide
  · rcases hkind with rfl | rfl | rfl | rfl | rfl | rfl <;> decide
  · rcases hkind with rfl | rfl <;> decide

end Stratum

/-! Trees without their spans. -/

def Token.unspanned (token : Token) : Token :=
  { token with span := default }

theorem Token.SameWord.unspanned_eq {left right : Token} (hsame : left.SameWord right) :
    left.unspanned = right.unspanned := by
  obtain ⟨hkind, hvalue⟩ := hsame
  simp [Token.unspanned, hkind, hvalue]

namespace Expr

mutual

/-- The tree with every span, also those of its operators, replaced by one and
the same. Two trees that agree here differ in spans only. -/
def unspanned : Expr → Expr
  | .number text _ => .number text default
  | .symbol name _ => .symbol name default
  | .string bytes _ => .string bytes default
  | .binary left operator right _ =>
      .binary left.unspanned operator.unspanned right.unspanned default
  | .unary operator operand _ => .unary operator.unspanned operand.unspanned default
  | .percent operand _ => .percent operand.unspanned default
  | .grouping inner _ => .grouping inner.unspanned default
  | .conversion target value _ => .conversion target value.unspanned default
  | .call callee arguments _ => .call callee (unspannedAll arguments) default
  | .next coroutine _ => .next coroutine.unspanned default
  | .create callee arguments _ _ => .create callee (unspannedAll arguments) default default

def unspannedAll : List Expr → List Expr
  | [] => []
  | first :: others => first.unspanned :: unspannedAll others

end

theorem eq_symbol_of_unspanned_eq {tree : Expr} {name : String} {span : Span}
    (htree : tree.unspanned = (symbol name span).unspanned) :
    ∃ other, tree = .symbol name other := by
  cases tree <;> simp only [unspanned, symbol.injEq, reduceCtorEq] at htree
  rename_i found other
  exact ⟨other, by rw [htree.1]⟩

theorem eq_call_of_unspanned_eq {tree : Expr} {callee : String} {arguments : List Expr}
    {span : Span} (htree : tree.unspanned = (call callee arguments span).unspanned) :
    ∃ others other, tree = .call callee others other ∧
      unspannedAll others = unspannedAll arguments := by
  cases tree <;> simp only [unspanned, call.injEq, reduceCtorEq] at htree
  rename_i found others other
  exact ⟨others, other, by rw [htree.1], htree.2.1⟩

end Expr

end Coroscript
