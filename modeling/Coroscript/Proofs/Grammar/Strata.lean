import Coroscript.Proofs.Grammar.Soundness

namespace Coroscript

/-! The two halves of a spelling: the tokens of a tree in their order, whatever the
tree, and the levels that its operators keep, whatever the tokens. -/

mutual

/-- `Renders tree words`: `words` are the tokens of `tree`, each of them once and in
order. Operators keep their kind and value; levels play no part. -/
inductive Renders : Expr → List Token → Prop
  | number {word : Token} (span : Span) (hword : word.kind = .number) :
      Renders (.number word.value span) [word]
  | symbol {word : Token} (span : Span) (hword : word.kind = .identifier) :
      Renders (.symbol word.value span) [word]
  | string {word : Token} (span : Span) (hword : word.kind = .string) :
      Renders (.string (Literal.bytes word.value) span) [word]
  | binary {left right : Expr} {sign operator : Token} {leftWords rightWords : List Token}
      (span : Span) (hsame : sign.SameWord operator) (hleft : Renders left leftWords)
      (hright : Renders right rightWords) :
      Renders (.binary left operator right span) (leftWords ++ sign :: rightWords)
  | unary {sign operator : Token} {operand : Expr} {words : List Token} (span : Span)
      (hsame : sign.SameWord operator) (hoperand : Renders operand words) :
      Renders (.unary operator operand span) (sign :: words)
  | percent {operand : Expr} {words : List Token} {sign : Token} (span : Span)
      (hoperand : Renders operand words) (hsign : sign.kind = .percent) :
      Renders (.percent operand span) (words ++ [sign])
  | grouping {opening closing : Token} {inner : Expr} {words : List Token} (span : Span)
      (hopening : opening.kind = .openParen) (hinner : Renders inner words)
      (hclosing : closing.kind = .closeParen) :
      Renders (.grouping inner span) (opening :: words ++ [closing])
  | conversion {keyword opening closing : Token} {target : NumericType} {value : Expr}
      {words : List Token} (span : Span) (hkeyword : keyword.kind = target.keyword)
      (hopening : opening.kind = .openParen) (hvalue : Renders value words)
      (hclosing : closing.kind = .closeParen) :
      Renders (.conversion target value span) (keyword :: opening :: words ++ [closing])
  | call {callee : Token} {arguments : List Expr} {words : List Token} (span : Span)
      (hcallee : callee.kind = .identifier) (harguments : RendersArguments arguments words) :
      Renders (.call callee.value arguments span) (callee :: words)
  | next {keyword : Token} {coroutine : Expr} {words : List Token} (span : Span)
      (hkeyword : keyword.kind = .keyNext) (hcoroutine : Renders coroutine words) :
      Renders (.next coroutine span) (keyword :: words)
  | create {keyword callee : Token} {arguments : List Expr} {words : List Token}
      (callSpan span : Span) (hkeyword : keyword.kind = .keyCreateCoroutine)
      (hcallee : callee.kind = .identifier) (harguments : RendersArguments arguments words) :
      Renders (.create callee.value arguments callSpan span) (keyword :: callee :: words)

inductive RendersArguments : List Expr → List Token → Prop
  | empty {opening closing : Token} (hopening : opening.kind = .openParen)
      (hclosing : closing.kind = .closeParen) : RendersArguments [] [opening, closing]
  | items {opening closing : Token} {arguments : List Expr} {words : List Token}
      (hopening : opening.kind = .openParen) (harguments : RendersSeparated arguments words)
      (hclosing : closing.kind = .closeParen) :
      RendersArguments arguments (opening :: words ++ [closing])

inductive RendersSeparated : List Expr → List Token → Prop
  | last {tree : Expr} {words : List Token} (htree : Renders tree words) :
      RendersSeparated [tree] words
  | cons {tree : Expr} {trees : List Expr} {words others : List Token} {comma : Token}
      (htree : Renders tree words) (hcomma : comma.kind = .comma)
      (htrees : RendersSeparated trees others) :
      RendersSeparated (tree :: trees) (words ++ comma :: others)

end

def TokenKind.isSign (kind : TokenKind) : Bool :=
  kind == .plus || kind == .dash

/-- Whether the first token of an expression is a plus or a minus. -/
def Expr.startsSigned : Expr → Bool
  | unary operator _ _ => operator.kind.isSign
  | binary left _ _ _ => left.startsSigned
  | percent operand _ => operand.startsSigned
  | _ => false

/-- The trees of each level. The operators of a level group to the left, and only powers
group to the right. -/
inductive Stratified : Stratum → Expr → Prop
  | number (text : String) (span : Span) : Stratified .primary (.number text span)
  | symbol (name : String) (span : Span) : Stratified .primary (.symbol name span)
  | string (bytes : List UInt8) (span : Span) : Stratified .primary (.string bytes span)
  | grouping {inner : Expr} (span : Span) (hinner : Stratified .logical inner) :
      Stratified .primary (.grouping inner span)
  | conversion {value : Expr} (target : NumericType) (span : Span)
      (hvalue : Stratified .logical value) :
      Stratified .primary (.conversion target value span)
  | call {arguments : List Expr} (callee : String) (span : Span)
      (harguments : ∀ argument ∈ arguments, Stratified .logical argument) :
      Stratified .primary (.call callee arguments span)
  | percent {operand : Expr} (span : Span) (hoperand : Stratified .trailing operand) :
      Stratified .trailing (.percent operand span)
  | unary {operator : Token} {operand : Expr} (span : Span)
      (hoperator : operator.kind ∈ TokenKind.signs) (hoperand : Stratified .unary operand) :
      Stratified .unary (.unary operator operand span)
  | next {coroutine : Expr} (span : Span) (hcoroutine : Stratified .unary coroutine) :
      Stratified .unary (.next coroutine span)
  | create {arguments : List Expr} (callee : String) (callSpan span : Span)
      (harguments : ∀ argument ∈ arguments, Stratified .logical argument) :
      Stratified .unary (.create callee arguments callSpan span)
  | exponent {left right : Expr} {operator : Token} (span : Span)
      (hoperator : operator.kind = .caret) (hleft : Stratified .unary left)
      (hright : Stratified .exponential right) :
      Stratified .exponential (.binary left operator right span)
  -- Before a plus or a minus, the percent sign belongs to the operand on its left.
  | percentOf {left right : Expr} {operator : Token} (span : Span)
      (hoperator : operator.kind = .percent) (hleft : Stratified .product left)
      (hright : Stratified .exponential right) (hunsigned : right.startsSigned = false) :
      Stratified .product (.binary left operator right span)
  | binary {level : Stratum} {left right : Expr} {operator : Token} (span : Span)
      (hoperator : operator.kind ∈ level.operators) (hleft : Stratified level left)
      (hright : Stratified level.tighter right) :
      Stratified level (.binary left operator right span)
  | tighter {level : Stratum} {tree : Expr} (hlevel : level ≠ .primary)
      (htree : Stratified level.tighter tree) : Stratified level tree

/-! The first token of a rendering tells whether the tree starts with a sign. -/

theorem NumericType.isSign_keyword (target : NumericType) :
    target.keyword.isSign = false := by
  cases target <;> rfl

theorem Renders.words_eq_cons :
    ∀ {tree : Expr} {words : List Token}, Renders tree words →
      ∃ first rest, words = first :: rest ∧ first.kind.isSign = tree.startsSigned
  | _, _, .number _ hword => ⟨_, _, rfl, by rw [hword]; rfl⟩
  | _, _, .symbol _ hword => ⟨_, _, rfl, by rw [hword]; rfl⟩
  | _, _, .string _ hword => ⟨_, _, rfl, by rw [hword]; rfl⟩
  | _, _, .binary _ _ hleft _ => by
      obtain ⟨first, rest, rfl, hfirst⟩ := hleft.words_eq_cons
      exact ⟨first, _, rfl, hfirst⟩
  | _, _, .unary _ hsame _ => ⟨_, _, rfl, by rw [hsame.1]; rfl⟩
  | _, _, .percent _ hoperand _ => by
      obtain ⟨first, rest, rfl, hfirst⟩ := hoperand.words_eq_cons
      exact ⟨first, _, rfl, hfirst⟩
  | _, _, .grouping _ hopening _ _ => ⟨_, _, rfl, by rw [hopening]; rfl⟩
  | _, _, .conversion _ hkeyword _ _ _ =>
      ⟨_, _, rfl, by rw [hkeyword]; exact NumericType.isSign_keyword _⟩
  | _, _, .call _ hcallee _ => ⟨_, _, rfl, by rw [hcallee]; rfl⟩
  | _, _, .next _ hkeyword _ => ⟨_, _, rfl, by rw [hkeyword]; rfl⟩
  | _, _, .create _ _ hkeyword _ _ => ⟨_, _, rfl, by rw [hkeyword]; rfl⟩

theorem TokenKind.isSign_eq_false_iff {kind : TokenKind} :
    kind.isSign = false ↔ kind ≠ .plus ∧ kind ≠ .dash := by
  simp [isSign]

theorem Renders.startsSigned_eq_false_iff {tree : Expr} {words : List Token}
    (hrenders : Renders tree words) :
    tree.startsSigned = false ↔
      ∀ first ∈ words.head?, first.kind ≠ .plus ∧ first.kind ≠ .dash := by
  obtain ⟨first, rest, rfl, hfirst⟩ := hrenders.words_eq_cons
  rw [← hfirst, TokenKind.isSign_eq_false_iff]
  simp

/-! A spelling has both halves. -/

mutual

theorem Spells.renders :
    ∀ {level : Stratum} {tree : Expr} {words : List Token}, Spells level tree words →
      Renders tree words
  | _, _, _, .number span hword => .number span hword
  | _, _, _, .symbol span hword => .symbol span hword
  | _, _, _, .string span hword => .string span hword
  | _, _, _, .grouping span hopening hinner hclosing =>
      .grouping span hopening hinner.renders hclosing
  | _, _, _, .conversion span hkeyword hopening hvalue hclosing =>
      .conversion span hkeyword hopening hvalue.renders hclosing
  | _, _, _, .call span hcallee harguments => .call span hcallee harguments.renders
  | _, _, _, .percent span hoperand hsign => .percent span hoperand.renders hsign
  | _, _, _, .unary span _ hsame hoperand => .unary span hsame hoperand.renders
  | _, _, _, .next span hkeyword hcoroutine => .next span hkeyword hcoroutine.renders
  | _, _, _, .create span hkeyword hcall => by
      cases hcall.renders with
      | call _ hcallee harguments => exact .create _ span hkeyword hcallee harguments
  | _, _, _, .exponent span _ hsame hleft hright =>
      .binary span hsame hleft.renders hright.renders
  | _, _, _, .percentOf span _ hsame hleft hright _ =>
      .binary span hsame hleft.renders hright.renders
  | _, _, _, .binary span _ hsame hleft hright =>
      .binary span hsame hleft.renders hright.renders
  | _, _, _, .tighter _ htree => htree.renders

theorem SpellsArguments.renders :
    ∀ {arguments : List Expr} {words : List Token}, SpellsArguments arguments words →
      RendersArguments arguments words
  | _, _, .empty hopening hclosing => .empty hopening hclosing
  | _, _, .items hopening harguments hclosing => .items hopening harguments.renders hclosing

theorem SpellsSeparated.renders :
    ∀ {trees : List Expr} {words : List Token}, SpellsSeparated trees words →
      RendersSeparated trees words
  | _, _, .last htree => .last htree.renders
  | _, _, .cons htree hcomma htrees => .cons htree.renders hcomma htrees.renders

end

mutual

theorem Spells.stratified :
    ∀ {level : Stratum} {tree : Expr} {words : List Token}, Spells level tree words →
      Stratified level tree
  | _, _, _, .number span _ => .number _ span
  | _, _, _, .symbol span _ => .symbol _ span
  | _, _, _, .string span _ => .string _ span
  | _, _, _, .grouping span _ hinner _ => .grouping span hinner.stratified
  | _, _, _, .conversion span _ _ hvalue _ => .conversion _ span hvalue.stratified
  | _, _, _, .call span _ harguments => .call _ span harguments.stratified
  | _, _, _, .percent span hoperand _ => .percent span hoperand.stratified
  | _, _, _, .unary span hsign hsame hoperand =>
      .unary span (hsame.1 ▸ hsign) hoperand.stratified
  | _, _, _, .next span _ hcoroutine => .next span hcoroutine.stratified
  | _, _, _, .create span _ hcall => by
      cases hcall.stratified with
      | call _ _ harguments => exact .create _ _ span harguments
      | tighter hlevel _ => exact absurd rfl hlevel
  | _, _, _, .exponent span hsign hsame hleft hright =>
      .exponent span (hsame.1 ▸ hsign) hleft.stratified hright.stratified
  | _, _, _, .percentOf span hsign hsame hleft hright hfirst =>
      .percentOf span (hsame.1 ▸ hsign) hleft.stratified hright.stratified
        (hright.renders.startsSigned_eq_false_iff.2 hfirst)
  | _, _, _, .binary span hsign hsame hleft hright =>
      .binary span (hsame.1 ▸ hsign) hleft.stratified hright.stratified
  | _, _, _, .tighter hlevel htree => .tighter hlevel htree.stratified

theorem SpellsArguments.stratified :
    ∀ {arguments : List Expr} {words : List Token}, SpellsArguments arguments words →
      ∀ argument ∈ arguments, Stratified .logical argument
  | _, _, .empty _ _ => by simp
  | _, _, .items _ harguments _ => harguments.stratified

theorem SpellsSeparated.stratified :
    ∀ {trees : List Expr} {words : List Token}, SpellsSeparated trees words →
      ∀ tree ∈ trees, Stratified .logical tree
  | _, _, .last htree => by simpa using htree.stratified
  | _, _, .cons htree _ htrees => List.forall_mem_cons.2 ⟨htree.stratified, htrees.stratified⟩

end

/-! Both halves make a spelling. -/

theorem RendersSeparated.spells :
    ∀ {trees : List Expr} {words : List Token}, RendersSeparated trees words →
      (∀ tree ∈ trees, ∀ words, Renders tree words → Spells .logical tree words) →
      SpellsSeparated trees words
  | _, _, .last htree, hspells => .last (hspells _ List.mem_cons_self _ htree)
  | _, _, .cons htree hcomma htrees, hspells =>
      .cons (hspells _ List.mem_cons_self _ htree) hcomma
        (htrees.spells fun tree hmem => hspells tree (List.mem_cons_of_mem _ hmem))

theorem RendersArguments.spells {arguments : List Expr} {words : List Token}
    (hrenders : RendersArguments arguments words)
    (hspells : ∀ tree ∈ arguments, ∀ words, Renders tree words → Spells .logical tree words) :
    SpellsArguments arguments words := by
  cases hrenders with
  | empty hopening hclosing => exact .empty hopening hclosing
  | items hopening harguments hclosing =>
      exact .items hopening (harguments.spells hspells) hclosing

theorem Stratified.spells {level : Stratum} {tree : Expr} (hstratified : Stratified level tree) :
    ∀ {words : List Token}, Renders tree words → Spells level tree words := by
  induction hstratified with
  | number text span =>
      intro words hrenders
      cases hrenders with
      | number _ hword => exact .number span hword
  | symbol name span =>
      intro words hrenders
      cases hrenders with
      | symbol _ hword => exact .symbol span hword
  | string bytes span =>
      intro words hrenders
      cases hrenders with
      | string _ hword => exact .string span hword
  | grouping span _ ih =>
      intro words hrenders
      cases hrenders with
      | grouping _ hopening hinner hclosing => exact .grouping span hopening (ih hinner) hclosing
  | conversion target span _ ih =>
      intro words hrenders
      cases hrenders with
      | conversion _ hkeyword hopening hvalue hclosing =>
          exact .conversion span hkeyword hopening (ih hvalue) hclosing
  | call callee span _ ih =>
      intro words hrenders
      cases hrenders with
      | call _ hcallee harguments =>
          exact .call span hcallee (harguments.spells fun tree hmem words => ih tree hmem)
  | percent span _ ih =>
      intro words hrenders
      cases hrenders with
      | percent _ hoperand hsign => exact .percent span (ih hoperand) hsign
  | unary span hoperator _ ih =>
      intro words hrenders
      cases hrenders with
      | unary _ hsame hoperand => exact .unary span (hsame.1 ▸ hoperator) hsame (ih hoperand)
  | next span _ ih =>
      intro words hrenders
      cases hrenders with
      | next _ hkeyword hcoroutine => exact .next span hkeyword (ih hcoroutine)
  | create callee callSpan span _ ih =>
      intro words hrenders
      cases hrenders with
      | create _ _ hkeyword hcallee harguments =>
          exact .create span hkeyword
            (.call callSpan hcallee (harguments.spells fun tree hmem words => ih tree hmem))
  | exponent span hoperator _ _ ihleft ihright =>
      intro words hrenders
      cases hrenders with
      | binary _ hsame hleft hright =>
          exact .exponent span (hsame.1 ▸ hoperator) hsame (ihleft hleft) (ihright hright)
  | percentOf span hoperator _ _ hunsigned ihleft ihright =>
      intro words hrenders
      cases hrenders with
      | binary _ hsame hleft hright =>
          exact .percentOf span (hsame.1 ▸ hoperator) hsame (ihleft hleft) (ihright hright)
            (hright.startsSigned_eq_false_iff.1 hunsigned)
  | binary span hoperator _ _ ihleft ihright =>
      intro words hrenders
      cases hrenders with
      | binary _ hsame hleft hright =>
          exact .binary span (hsame.1 ▸ hoperator) hsame (ihleft hleft) (ihright hright)
  | tighter hlevel _ ih =>
      intro words hrenders
      exact .tighter hlevel (ih hrenders)

theorem spells_iff {level : Stratum} {tree : Expr} {words : List Token} :
    Spells level tree words ↔ Stratified level tree ∧ Renders tree words := by
  constructor
  · intro hspells
    exact ⟨hspells.stratified, hspells.renders⟩
  · intro hboth
    exact hboth.1.spells hboth.2

end Coroscript
