import Coroscript.Proofs.Cpp.Quotes
import Coroscript.Proofs.Emit.Output
import Coroscript.Proofs.Grammar.Programs

namespace Coroscript

/-! The string literals of an emitted text, and the tokens that they stem from. -/

def Token.strings (words : List Token) : List Token :=
  words.filter fun word => word.kind = .string

theorem Token.strings_append (words more : List Token) :
    strings (words ++ more) = strings words ++ strings more :=
  List.filter_append words more

theorem Token.strings_cons {word : Token} {kind : TokenKind} (hword : word.kind = kind)
    (hkind : kind ≠ .string) (words : List Token) : strings (word :: words) = strings words :=
  List.filter_cons_of_neg (by simp [hword, hkind])

theorem Token.strings_single {word : Token} {kind : TokenKind} (hword : word.kind = kind)
    (hkind : kind ≠ .string) : strings [word] = [] :=
  strings_cons hword hkind []

theorem Token.strings_concat {word : Token} {kind : TokenKind} (hword : word.kind = kind)
    (hkind : kind ≠ .string) (words : List Token) : strings (words ++ [word]) = strings words := by
  rw [strings_append, strings_single hword hkind, List.append_nil]

namespace Emit

open Cpp Token

/-- The literals that stem from no string of the source. -/
def ownLiterals : List (List Char) :=
  ["\\n".toList, "Coroutine is over".toList]

/-- `Stems inner origin?`: the literal with the text `inner` between its quotes is there for
the token `origin?`, or for none. -/
inductive Stems : List Char → Option Token → Prop
  | own {inner : List Char} (hinner : inner ∈ ownLiterals) : Stems inner none
  | token (origin : Token) : Stems ((Literal.bytes origin.value).flatMap literalByte) (some origin)

/-- The literals of a text, and the tokens that they stem from. -/
def Quotes (text : String) (origins : List Token) : Prop :=
  ∃ quotes : List (List Char × Option Token), Encloses text.toList (quotes.map Prod.fst) ∧
    quotes.filterMap Prod.snd = origins ∧ ∀ quote ∈ quotes, Stems quote.1 quote.2

inductive QuotesAll : List String → List Token → Prop
  | nil : QuotesAll [] []
  | cons {text : String} {texts : List String} {origins others : List Token}
      (htext : Quotes text origins) (htexts : QuotesAll texts others) :
      QuotesAll (text :: texts) (origins ++ others)

section Texts

variable {text before after separator : String} {texts more : List String}
  {origins others : List Token}

theorem quotes_plain (htext : '"' ∉ text.toList) : Quotes text [] :=
  ⟨[], .plain htext, rfl, by simp⟩

theorem quotes_own {inner : List Char} (hinner : inner ∈ ownLiterals)
    (htext : text.toList = '"' :: inner ++ ['"']) : Quotes text [] := by
  refine ⟨[(inner, none)], ?_, rfl, by simpa using .own hinner⟩
  rw [htext]
  simp only [ownLiterals, List.mem_cons, List.not_mem_nil, or_false] at hinner
  rcases hinner with rfl | rfl
  · exact fun found => rfl
  · exact fun found => rfl

theorem quotes_token (token : Token) :
    Quotes (stringLiteral (Literal.bytes token.value)) [token] :=
  ⟨[(_, some token)], encloses_stringLiteral _, rfl, by simpa using .token token⟩

namespace Quotes

theorem append (htext : Quotes text origins) (hafter : Quotes after others) :
    Quotes (text ++ after) (origins ++ others) := by
  obtain ⟨quotes, hquotes, rfl, hstems⟩ := htext
  obtain ⟨later, hlater, rfl, hstems'⟩ := hafter
  refine ⟨quotes ++ later, ?_, List.filterMap_append, ?_⟩
  · rw [String.toList_append, List.map_append]
    exact hquotes.append hlater
  · exact List.forall_mem_append.2 ⟨hstems, hstems'⟩

theorem behind (htext : Quotes text origins) (hbefore : '"' ∉ before.toList) :
    Quotes (before ++ text) origins :=
  (quotes_plain hbefore).append htext

theorem ahead (htext : Quotes text origins) (hafter : '"' ∉ after.toList) :
    Quotes (text ++ after) origins := by
  have hboth := htext.append (quotes_plain hafter)
  rwa [List.append_nil] at hboth

theorem indent (htext : Quotes text origins) : Quotes (Cpp.indent text) origins := by
  obtain ⟨quotes, hquotes, horigins, hstems⟩ := htext
  exact ⟨quotes, hquotes.indent, horigins, hstems⟩

theorem single (htext : Quotes text origins) : QuotesAll [text] origins := by
  have hall := QuotesAll.cons htext .nil
  rwa [List.append_nil] at hall

end Quotes

namespace QuotesAll

theorem append (htexts : QuotesAll texts origins) (hmore : QuotesAll more others) :
    QuotesAll (texts ++ more) (origins ++ others) := by
  induction htexts with
  | nil => exact hmore
  | cons htext _ ih =>
      rw [List.cons_append, List.append_assoc]
      exact .cons htext ih

theorem intercalate (htexts : QuotesAll texts origins) (hseparator : '"' ∉ separator.toList) :
    Quotes (separator.intercalate texts) origins := by
  induction htexts with
  | nil => exact quotes_plain (by simp)
  | @cons text texts origins others htext htexts ih =>
      cases htexts with
      | nil =>
          rw [String.intercalate_singleton, List.append_nil]
          exact htext
      | cons hnext hrest =>
          rw [String.intercalate_cons_cons, String.append_assoc]
          exact htext.append (ih.behind hseparator)

theorem join (htexts : QuotesAll texts origins) (hbefore : '"' ∉ before.toList) :
    Quotes (String.join (texts.map (before ++ ·))) origins := by
  induction htexts with
  | nil => exact quotes_plain (by simp)
  | cons htext _ ih =>
      rw [List.map_cons, String.join_cons]
      exact (htext.behind hbefore).append ih

theorem braced (htexts : QuotesAll texts origins) : Quotes (Cpp.braced texts) origins := by
  cases htexts with
  | nil => exact quotes_plain (by simp [Cpp.braced])
  | cons htext hrest =>
      have hlines : Quotes ("\n".intercalate _) _ :=
        (QuotesAll.cons htext hrest).intercalate (by simp)
      exact (hlines.indent.behind (by simp)).ahead (by simp)

end QuotesAll

end Texts

/-! Expressions. -/

theorem quote_not_mem {Starts Continues : Char → Prop} {text : List Char}
    (htext : ∃ first tail, text = first :: tail ∧ Starts first ∧ ∀ c ∈ tail, Continues c)
    (hstarts : ¬ Starts '"') (hcontinues : ¬ Continues '"') : '"' ∉ text := by
  obtain ⟨first, tail, rfl, hfirst, htail⟩ := htext
  intro hquote
  rcases List.mem_cons.1 hquote with rfl | hquote
  · exact hstarts hfirst
  · exact hcontinues (htail _ hquote)

theorem plain_of_fits {token : Token} (hfits : token.Fits)
    (hkind : token.kind = .identifier ∨ token.kind = .number ∨ token.kind.mark? ≠ none) :
    '"' ∉ token.value.toList := by
  unfold Token.Fits at hfits
  rcases hkind with hkind | hkind | hkind
  · rw [hkind] at hfits
    exact quote_not_mem hfits (by decide) (by decide)
  · rw [hkind] at hfits
    exact quote_not_mem hfits (by decide) (by decide)
  · have hmarks : ∀ kind : TokenKind, ∀ mark ∈ kind.mark?, '"' ∉ mark.toList := by
      intro kind
      cases kind <;> simp [TokenKind.mark?]
    obtain ⟨mark, hmark⟩ := Option.ne_none_iff_exists'.1 hkind
    have htext : token.value.toList = mark.toList := by
      cases hother : token.kind <;> rw [hother] at hfits hmark <;>
        first | exact hfits mark hmark | contradiction
    rw [htext]
    exact hmarks token.kind mark hmark

section Expressions

variable {text left right callee : String} {texts : List String} {origins others : List Token}

theorem Quotes.inParens (htext : Quotes text origins) : Quotes (Emit.inParens text) origins :=
  (htext.behind (by simp)).ahead (by simp)

theorem Quotes.operand (htext : Quotes text origins) (tree : Expr) (level : Nat) (side : Side) :
    Quotes (Emit.operand tree level side text) origins := by
  unfold Emit.operand
  split
  · exact htext.inParens
  · exact htext

theorem Quotes.unary {operator : Token} (htext : Quotes text origins)
    (hoperator : '"' ∉ operator.value.toList) (tree : Expr) :
    Quotes (unaryText operator tree text) origins := by
  unfold unaryText
  split
  · exact htext.inParens.behind hoperator
  · exact htext.inParens.behind hoperator
  · exact htext.behind hoperator

theorem Quotes.next (htext : Quotes text origins) (tree : Expr) :
    Quotes (nextText tree text) origins := by
  unfold nextText
  split
  · exact htext.inParens.ahead (by simp)
  · exact htext.inParens.ahead (by simp)
  · exact htext.inParens.ahead (by simp)
  · exact htext.ahead (by simp)

theorem Quotes.binary {operator : Token} (hleft : Quotes left origins)
    (hright : Quotes right others) (hoperator : '"' ∉ operator.value.toList)
    (leftTree rightTree : Expr) :
    Quotes (binaryText leftTree operator rightTree left right) (origins ++ others) := by
  unfold binaryText
  split
  · exact ((((hleft.behind (by simp)).ahead (by simp)).append hright).ahead (by simp))
  · exact (((hleft.operand leftTree _ .left).ahead (by simp)).append hright).ahead (by simp)
  · have hleftOperand := (hleft.operand leftTree (precedence operator.kind) .left).ahead
      (by simp : '"' ∉ " ".toList)
    exact ((hleftOperand.ahead hoperator).ahead (by simp)).append (hright.operand rightTree _ .right)

theorem QuotesAll.call (htexts : QuotesAll texts origins) (hcallee : '"' ∉ callee.toList) :
    Quotes (callText callee texts) origins :=
  (((htexts.intercalate (by simp)).behind (by simpa using hcallee)).ahead (by simp))

theorem operator_marked {stratum : Stratum} {kind : TokenKind} (hkind : kind ∈ stratum.operators) :
    kind.mark? ≠ none ∧ kind ≠ .string := by
  cases stratum <;>
    simp only [Stratum.operators, List.mem_cons, List.not_mem_nil, or_false] at hkind
  case' product => rcases hkind with rfl | rfl
  case' sum => rcases hkind with rfl | rfl
  case' comparison => rcases hkind with rfl | rfl | rfl | rfl | rfl | rfl
  case' logical => rcases hkind with rfl | rfl
  all_goals exact ⟨by decide, by decide⟩

theorem sign_marked {kind : TokenKind} (hkind : kind ∈ TokenKind.signs) :
    kind.mark? ≠ none ∧ kind ≠ .string := by
  simp only [TokenKind.signs, List.mem_cons, List.not_mem_nil, or_false] at hkind
  rcases hkind with rfl | rfl | rfl
  all_goals exact ⟨by decide, by decide⟩

end Expressions

theorem plain_of_sameWord {sign operator : Token} (hfits : sign.Fits)
    (hmark : sign.kind.mark? ≠ none) (hsame : sign.SameWord operator) :
    '"' ∉ operator.value.toList :=
  hsame.2 ▸ plain_of_fits hfits (.inr (.inr hmark))

theorem quotes_binary {left right : Expr} {leftWords rightWords : List Token}
    {sign operator : Token} (hfits : ∀ word ∈ leftWords ++ sign :: rightWords, word.Fits)
    (hmark : sign.kind.mark? ≠ none ∧ sign.kind ≠ .string) (hsame : sign.SameWord operator)
    (hleft : Quotes (exprText left) (strings leftWords))
    (hright : Quotes (exprText right) (strings rightWords)) (span : Span) :
    Quotes (exprText (.binary left operator right span))
      (strings (leftWords ++ sign :: rightWords)) := by
  have hoperator := plain_of_sameWord (hfits sign (by simp)) hmark.1 hsame
  rw [strings_append, strings_cons rfl hmark.2]
  exact hleft.binary hright hoperator left right

/-! The tree of an expression and the words that spell it go together. -/

mutual

theorem quotes_of_spells : ∀ {stratum : Stratum} {tree : Expr} {words : List Token},
    Spells stratum tree words → (∀ word ∈ words, word.Fits) →
      Quotes (exprText tree) (strings words)
  | _, _, _, .number _ hword, hfits => by
      rw [strings_single hword (by decide)]
      exact quotes_plain (plain_of_fits (hfits _ List.mem_cons_self) (.inr (.inl hword)))
  | _, _, _, .symbol _ hword, hfits => by
      rw [strings_single hword (by decide)]
      exact quotes_plain (plain_of_fits (hfits _ List.mem_cons_self) (.inl hword))
  | _, _, _, .string _ hword, _ => by
      have hstrings : strings [_] = [_] := List.filter_cons_of_pos (by simpa using hword)
      rw [hstrings]
      exact quotes_token _
  | _, _, _, .grouping _ hopening hinner hclosing, hfits => by
      have htext := quotes_of_spells hinner fun word hword => hfits word (by simp [hword])
      rw [List.cons_append, strings_cons hopening (by decide), strings_concat hclosing (by decide)]
      exact htext.inParens
  | _, _, _, @Spells.conversion _ _ _ target _ _ _ hkeyword hopening hvalue hclosing, hfits => by
      have htext := quotes_of_spells hvalue fun word hword => hfits word (by simp [hword])
      have htarget : target.keyword ≠ .string ∧ '"' ∉ (typeText target).toList := by
        cases target <;> exact ⟨by decide, by simp [typeText]⟩
      rw [List.cons_append, strings_cons hkeyword htarget.1, List.cons_append,
        strings_cons hopening (by decide), strings_concat hclosing (by decide)]
      exact htext.inParens.behind (by simpa using htarget.2)
  | _, _, _, .call _ hcallee harguments, hfits => by
      have htexts := quotesAll_of_spells harguments fun word hword => hfits word (by simp [hword])
      rw [strings_cons hcallee (by decide)]
      exact htexts.call (plain_of_fits (hfits _ List.mem_cons_self) (.inl hcallee))
  | _, _, _, .percent _ hoperand hsign, hfits => by
      have htext := quotes_of_spells hoperand fun word hword => hfits word (by simp [hword])
      rw [strings_concat hsign (by decide)]
      exact ((htext.operand _ _ .left).behind (by simp)).ahead (by simp)
  | _, _, _, .unary _ hsign hsame hoperand, hfits => by
      have htext := quotes_of_spells hoperand fun word hword => hfits word (by simp [hword])
      have hmark := sign_marked hsign
      rw [strings_cons rfl hmark.2]
      exact htext.unary (plain_of_sameWord (hfits _ List.mem_cons_self) hmark.1 hsame) _
  | _, _, _, .next _ hkeyword hcoroutine, hfits => by
      have htext := quotes_of_spells hcoroutine fun word hword => hfits word (by simp [hword])
      rw [strings_cons hkeyword (by decide)]
      exact htext.next _
  | _, _, _, .create _ hkeyword hcall, hfits => by
      have htext := quotes_of_spells hcall fun word hword => hfits word (by simp [hword])
      rw [strings_cons hkeyword (by decide)]
      exact htext
  | _, _, _, .exponent span hsign hsame hleft hright, hfits =>
      quotes_binary hfits (hsign ▸ by decide) hsame
        (quotes_of_spells hleft fun word hword => hfits word (by simp [hword]))
        (quotes_of_spells hright fun word hword => hfits word (by simp [hword])) span
  | _, _, _, .percentOf span hsign hsame hleft hright _, hfits =>
      quotes_binary hfits (hsign ▸ by decide) hsame
        (quotes_of_spells hleft fun word hword => hfits word (by simp [hword]))
        (quotes_of_spells hright fun word hword => hfits word (by simp [hword])) span
  | _, _, _, .binary span hsign hsame hleft hright, hfits =>
      quotes_binary hfits (operator_marked hsign) hsame
        (quotes_of_spells hleft fun word hword => hfits word (by simp [hword]))
        (quotes_of_spells hright fun word hword => hfits word (by simp [hword])) span
  | _, _, _, .tighter _ htree, hfits => quotes_of_spells htree hfits

theorem quotesAll_of_spells : ∀ {trees : List Expr} {words : List Token},
    SpellsArguments trees words → (∀ word ∈ words, word.Fits) →
      QuotesAll (exprTexts trees) (strings words)
  | _, _, .empty hopening hclosing, _ => by
      rw [strings_cons hopening (by decide), strings_single hclosing (by decide)]
      exact .nil
  | _, _, .items hopening harguments hclosing, hfits => by
      have htexts := quotesSeparated_of_spells harguments fun word hword =>
        hfits word (by simp [hword])
      rw [List.cons_append, strings_cons hopening (by decide), strings_concat hclosing (by decide)]
      exact htexts

theorem quotesSeparated_of_spells : ∀ {trees : List Expr} {words : List Token},
    SpellsSeparated trees words → (∀ word ∈ words, word.Fits) →
      QuotesAll (exprTexts trees) (strings words)
  | _, _, .last htree, hfits => (quotes_of_spells htree hfits).single
  | _, _, .cons htree hcomma htrees, hfits => by
      have htext := quotes_of_spells htree fun word hword => hfits word (by simp [hword])
      have htexts := quotesSeparated_of_spells htrees fun word hword => hfits word (by simp [hword])
      rw [strings_append, strings_cons hcomma (by decide)]
      exact .cons htext htexts

end

end Emit

end Coroscript
