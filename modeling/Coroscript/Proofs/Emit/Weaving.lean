import Coroscript.Proofs.Cpp.Weaving
import Coroscript.Proofs.Emit.Margins
import Coroscript.Proofs.Emit.Strings
import Coroscript.Proofs.Matching.Steps

namespace Coroscript.Emit

open Cpp Emitter

/-! How the text of a program is put together. -/

/-- A text that may stand in every text, and what it is without indentation. -/
def Piece (headed : Bool) (text flat : String) : Prop :=
  ∀ awaited, Woven headed .ready awaited .done awaited text flat

section Pieces

variable {headed : Bool} {before : Edge} {awaited : List Char} {text flat left leftFlat : String}
  {texts flats : List String}

/-! Phrases that stand in several texts. -/

theorem woven_paren : Woven false .ready awaited .ready (')' :: awaited) "(" "(" :=
  woven_opening (by decide)

theorem woven_callParen : Woven false .done awaited .ready (')' :: awaited) "(" "(" :=
  woven_opening (by decide)

theorem woven_space : Woven false .shut awaited .ready awaited " " " " :=
  woven_phrase (by decide)

theorem woven_newline : Woven false .done awaited .ready awaited "\n" "\n" :=
  woven_phrase (by decide)

theorem woven_semicolon : Woven false .done awaited .done awaited ";" ";" :=
  woven_phrase (by decide)

theorem woven_class : Woven false .ready awaited .ready awaited "class " "class " :=
  woven_phrase (by decide)

/-! Pieces. -/

theorem piece_phrase (hphrase : isPhrase headed .ready [] .done [] text.toList = true) :
    Piece headed text text :=
  fun _ => woven_phrase hphrase

theorem piece_word (hword : IsWord text.toList) : Piece false text text :=
  fun _ => woven_word hword

theorem Piece.any (hpiece : Piece false text flat) (headed : Bool) : Piece headed text flat := by
  intro awaited
  obtain ⟨hnests, hmisses, hflush, hunreturned⟩ := hpiece awaited
  exact ⟨hnests, fun _ => hmisses rfl, hflush, hunreturned⟩

theorem intercalate_eq_join (separator text : String) (texts : List String) :
    separator.intercalate (text :: texts) = text ++ String.join (texts.map (separator ++ ·)) := by
  induction texts generalizing text with
  | nil => rw [String.intercalate_singleton, List.map_nil, String.join_nil, String.append_empty]
  | cons next others ih =>
      rw [String.intercalate_cons_cons, ih, List.map_cons, String.join_cons, String.append_assoc,
        String.append_assoc]

theorem woven_join {separator : String} {before : Edge}
    (hleft : Woven headed before awaited .done awaited left leftFlat)
    (hseparator : Woven headed .done awaited .ready awaited separator separator)
    (hpieces : List.Forall₂ (Piece headed) texts flats) :
    Woven headed before awaited .done awaited
      (left ++ String.join (texts.map (separator ++ ·)))
      (leftFlat ++ String.join (flats.map (separator ++ ·))) := by
  induction hpieces generalizing left leftFlat with
  | nil =>
      rw [List.map_nil, String.join_nil, String.append_empty, String.append_empty]
      exact hleft
  | cons hpiece _ ih =>
      rw [List.map_cons, List.map_cons, String.join_cons, String.join_cons, ← String.append_assoc,
        ← String.append_assoc, ← String.append_assoc, ← String.append_assoc]
      exact ih ((hleft.append hseparator).append (hpiece awaited))

theorem piece_intercalate {separator : String}
    (hseparator : isPhrase headed .done [] .ready [] separator.toList = true)
    (hpieces : List.Forall₂ (Piece headed) texts flats) (hne : texts ≠ []) :
    Piece headed (separator.intercalate texts) (separator.intercalate flats) := by
  cases hpieces with
  | nil => contradiction
  | cons hpiece hothers =>
      intro awaited
      rw [intercalate_eq_join, intercalate_eq_join]
      exact woven_join (hpiece awaited) (woven_phrase hseparator) hothers

theorem piece_commas (hpieces : List.Forall₂ (Piece false) texts flats) (hne : texts ≠ []) :
    Piece false (", ".intercalate texts) (", ".intercalate flats) :=
  piece_intercalate (by decide) hpieces hne

theorem piece_lines (hpieces : List.Forall₂ (Piece false) texts flats) (hne : texts ≠ []) :
    Piece false ("\n".intercalate texts) ("\n".intercalate flats) :=
  piece_intercalate (by decide) hpieces hne

theorem piece_braced (hpieces : List.Forall₂ (Piece false) texts flats) :
    Piece false (braced texts) (bracedBy [] flats) := by
  cases hpieces with
  | nil => exact piece_phrase (by decide)
  | cons hpiece hothers =>
      intro awaited
      have hlines := piece_lines (.cons hpiece hothers) (List.cons_ne_nil _ _)
      have hopened : Woven false .ready awaited .line ('\x7d' :: awaited) "\x7b\n" "\x7b\n" :=
        woven_opening (by decide)
      exact (hopened.append (hlines _).indent).append (woven_closing (by decide))

theorem Piece.shut (hpiece : Piece false text flat) :
    Woven false .ready awaited .shut awaited (inParens text) (inParens flat) :=
  (woven_paren.append (hpiece _)).append (woven_closing (by decide))

theorem Piece.inParens (hpiece : Piece false text flat) :
    Piece false (Emit.inParens text) (Emit.inParens flat) :=
  fun _ => hpiece.shut.ended

/-- A list of pieces, behind a text that opens the parentheses around it. -/
theorem woven_list (hleft : Woven false before awaited .ready (')' :: awaited) left leftFlat)
    (hpieces : List.Forall₂ (Piece false) texts flats) :
    Woven false before awaited .shut awaited (left ++ ", ".intercalate texts ++ ")")
      (leftFlat ++ ", ".intercalate flats ++ ")") := by
  cases hpieces with
  | nil =>
      rw [String.intercalate_nil, String.append_empty, String.append_empty]
      exact hleft.append (woven_closing (by decide))
  | cons hpiece hothers =>
      have hitems := piece_commas (.cons hpiece hothers) (List.cons_ne_nil _ _)
      exact (hleft.append (hitems _)).append (woven_closing (by decide))

end Pieces

/-! Expressions. -/

theorem isWord_of_fits {token : Token} (hfits : token.Fits)
    (hkind : token.kind = .identifier ∨ token.kind = .number) : IsWord token.value.toList := by
  unfold Token.Fits at hfits
  rcases hkind with hkind | hkind
  all_goals
    rw [hkind] at hfits
    obtain ⟨first, tail, htext, hfirst, htail⟩ := hfits
    rw [htext]
    refine ⟨List.cons_ne_nil _ _, List.forall_mem_cons.2 ⟨?_, fun c hc => ?_⟩⟩
  · simp only [Lexeme.isWordPart, Lexeme.isWordStart] at hfirst ⊢
    grind
  · rw [htail c hc, Bool.true_or]
  · simp [Lexeme.isWordPart, hfirst]
  · have hc := htail c hc
    simp only [Lexeme.isWordPart]
    grind

section Expressions

variable {text left right callee : String} {texts : List String}

theorem Piece.operand (hpiece : Piece false text text) (tree : Expr) (level : Nat) (side : Side) :
    Piece false (Emit.operand tree level side text) (Emit.operand tree level side text) := by
  unfold Emit.operand
  split
  · exact hpiece.inParens
  · exact hpiece

theorem Piece.unary {operator : Token} (hpiece : Piece false text text)
    (hoperator : operator.value ∈ ["+", "-", "!"]) (tree : Expr) :
    Piece false (unaryText operator tree text) (unaryText operator tree text) := by
  have hsign : ∀ value ∈ ["+", "-", "!"],
      isPhrase false .ready [] .ready [] value.toList = true := by decide
  have hwoven (awaited : List Char) :
      Woven false .ready awaited .ready awaited operator.value operator.value :=
    woven_phrase (hsign _ hoperator)
  intro awaited
  unfold unaryText
  split
  · exact (hwoven awaited).append (hpiece.inParens awaited)
  · exact (hwoven awaited).append (hpiece.inParens awaited)
  · exact (hwoven awaited).append (hpiece awaited)

theorem Piece.next (hpiece : Piece false text text) (tree : Expr) :
    Piece false (nextText tree text) (nextText tree text) := by
  intro awaited
  have hnext : Woven false .done awaited .done awaited ".next()" ".next()" :=
    woven_phrase (by decide)
  unfold nextText
  split
  · exact (hpiece.inParens awaited).append hnext
  · exact (hpiece.inParens awaited).append hnext
  · exact (hpiece.inParens awaited).append hnext
  · exact (hpiece awaited).append hnext

theorem Piece.power (hleft : Piece false left left) (hright : Piece false right right) :
    Piece false ("std::pow(" ++ left ++ ", " ++ right ++ ")")
      ("std::pow(" ++ left ++ ", " ++ right ++ ")") := by
  intro awaited
  have hopened : Woven false .ready awaited .ready (')' :: awaited) "std::pow(" "std::pow(" :=
    woven_opening (by decide)
  have hcomma : Woven false .done (')' :: awaited) .ready (')' :: awaited) ", " ", " :=
    woven_phrase (by decide)
  exact (((hopened.append (hleft _)).append hcomma).append (hright _)).append
    (woven_closing (by decide))

theorem Piece.percentOf (hleft : Piece false left left) (hright : Piece false right right) :
    Piece false (left ++ " * (" ++ right ++ " * 0.01)")
      (left ++ " * (" ++ right ++ " * 0.01)") := by
  intro awaited
  have hopened : Woven false .done awaited .ready (')' :: awaited) " * (" " * (" :=
    woven_opening (by decide)
  exact (((hleft _).append hopened).append (hright _)).append (woven_closing (by decide))

theorem Piece.binary {operator : String} (hleft : Piece false left left)
    (hright : Piece false right right)
    (hoperator : operator ∈ ["*", "/", "+", "-", "<", "<=", ">", ">=", "==", "!=", "&&", "||"]) :
    Piece false (left ++ " " ++ operator ++ " " ++ right)
      (left ++ " " ++ operator ++ " " ++ right) := by
  have hspaced : ∀ value ∈ ["*", "/", "+", "-", "<", "<=", ">", ">=", "==", "!=", "&&", "||"],
      isPhrase false .done [] .ready [] (" " ++ value ++ " ").toList = true := by decide
  intro awaited
  have hmiddle : Woven false .done awaited .ready awaited (" " ++ operator ++ " ")
      (" " ++ operator ++ " ") := woven_phrase (hspaced _ hoperator)
  have htext : left ++ " " ++ operator ++ " " ++ right =
      left ++ (" " ++ operator ++ " ") ++ right := by simp [String.append_assoc]
  rw [htext]
  exact ((hleft awaited).append hmiddle).append (hright awaited)

theorem piece_call (hcallee : IsWord callee.toList)
    (htexts : ∀ text ∈ texts, Piece false text text) :
    Piece false (callText callee texts) (callText callee texts) := by
  intro awaited
  exact (woven_list ((woven_word hcallee).append woven_callParen)
    (List.forall₂_same.2 htexts)).ended

theorem piece_binary {leftTree rightTree : Expr} {operator : Token} {stratum : Stratum}
    (hleft : Piece false left left) (hright : Piece false right right)
    (hkind : operator.kind ∈ stratum.operators) (hfits : operator.Fits) :
    Piece false (binaryText leftTree operator rightTree left right)
      (binaryText leftTree operator rightTree left right) := by
  obtain ⟨hvalue, hcaret, hpercent, -⟩ := operator_facts hkind hfits
  have htext := (hleft.operand leftTree (precedence operator.kind) .left).binary
    (hright.operand rightTree (precedence operator.kind) .right) hvalue
  unfold binaryText
  split
  · contradiction
  · contradiction
  · exact htext

end Expressions

theorem fits_of_sameWord {sign operator : Token} (hfits : sign.Fits)
    (hsame : sign.SameWord operator) : operator.Fits := by
  unfold Token.Fits at hfits ⊢
  rwa [← hsame.1, ← hsame.2]

mutual

theorem piece_of_spells : ∀ {stratum : Stratum} {tree : Expr} {words : List Token},
    Spells stratum tree words → (∀ word ∈ words, word.Fits) →
      Piece false (exprText tree) (exprText tree)
  | _, _, _, .number _ hword, hfits =>
      piece_word (isWord_of_fits (hfits _ List.mem_cons_self) (.inr hword))
  | _, _, _, .symbol _ hword, hfits =>
      piece_word (isWord_of_fits (hfits _ List.mem_cons_self) (.inl hword))
  | _, _, _, .string _ _, _ => fun _ => woven_literal _
  | _, _, _, .grouping _ _ hinner _, hfits =>
      (piece_of_spells hinner fun word hword => hfits word (by simp [hword])).inParens
  | _, _, _, @Spells.conversion _ _ _ target _ _ _ _ _ hvalue _, hfits => by
      have hpiece := piece_of_spells hvalue fun word hword => hfits word (by simp [hword])
      intro awaited
      have htarget : Woven false .ready awaited .ready awaited
          ("static_cast<" ++ typeText target ++ ">") ("static_cast<" ++ typeText target ++ ">") :=
        woven_phrase (by cases target <;> decide)
      exact htarget.append (hpiece.inParens awaited)
  | _, _, _, .call _ hcallee harguments, hfits =>
      piece_call (isWord_of_fits (hfits _ List.mem_cons_self) (.inl hcallee))
        (pieces_of_spells harguments fun word hword => hfits word (by simp [hword]))
  | _, _, _, .percent _ hoperand _, hfits => by
      have hpiece := piece_of_spells hoperand fun word hword => hfits word (by simp [hword])
      intro awaited
      exact (woven_paren.append (hpiece.operand _ _ .left _)).append (woven_closing (by decide))
  | _, _, _, .unary _ hsign hsame hoperand, hfits => by
      have hpiece := piece_of_spells hoperand fun word hword => hfits word (by simp [hword])
      have hvalue := sign_value hsign (hfits _ List.mem_cons_self)
      rw [hsame.2] at hvalue
      exact hpiece.unary hvalue _
  | _, _, _, .next _ _ hcoroutine, hfits =>
      (piece_of_spells hcoroutine fun word hword => hfits word (by simp [hword])).next _
  | _, _, _, .create _ _ hcall, hfits => by
      have hpiece := piece_of_spells hcall fun word hword => hfits word (by simp [hword])
      exact hpiece
  | _, _, _, .exponent _ hsign hsame hleft hright, hfits => by
      have hpieces := (piece_of_spells hleft fun word hword => hfits word (by simp [hword])).power
        (piece_of_spells hright fun word hword => hfits word (by simp [hword]))
      rw [hsame.1] at hsign
      simpa only [exprText, binaryText, hsign] using hpieces
  | _, _, _, @Spells.percentOf leftTree _ _ _ _ _ _ hsign hsame hleft hright _, hfits => by
      have hleftPiece := piece_of_spells hleft fun word hword => hfits word (by simp [hword])
      have hpieces := (hleftPiece.operand leftTree (precedence .percent) .left).percentOf
        (piece_of_spells hright fun word hword => hfits word (by simp [hword]))
      rw [hsame.1] at hsign
      simpa only [exprText, binaryText, hsign] using hpieces
  | _, _, _, .binary _ hsign hsame hleft hright, hfits =>
      piece_binary (piece_of_spells hleft fun word hword => hfits word (by simp [hword]))
        (piece_of_spells hright fun word hword => hfits word (by simp [hword])) (hsame.1 ▸ hsign)
        (fits_of_sameWord (hfits _ (by simp)) hsame)
  | _, _, _, .tighter _ htree, hfits => piece_of_spells htree hfits

theorem pieces_of_spells : ∀ {trees : List Expr} {words : List Token},
    SpellsArguments trees words → (∀ word ∈ words, word.Fits) →
      ∀ text ∈ exprTexts trees, Piece false text text
  | _, _, .empty _ _, _ => fun _ htext => absurd htext List.not_mem_nil
  | _, _, .items _ harguments _, hfits =>
      pieces_separated harguments fun word hword => hfits word (by simp [hword])

theorem pieces_separated : ∀ {trees : List Expr} {words : List Token},
    SpellsSeparated trees words → (∀ word ∈ words, word.Fits) →
      ∀ text ∈ exprTexts trees, Piece false text text
  | _, _, .last htree, hfits =>
      List.forall_mem_cons.2 ⟨piece_of_spells htree hfits,
        fun _ htext => absurd htext List.not_mem_nil⟩
  | _, _, .cons htree _ htrees, hfits =>
      List.forall_mem_cons.2
        ⟨piece_of_spells htree fun word hword => hfits word (by simp [hword]),
          pieces_separated htrees fun word hword => hfits word (by simp [hword])⟩

end

end Coroscript.Emit
