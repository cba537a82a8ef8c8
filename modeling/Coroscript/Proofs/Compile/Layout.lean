import Coroscript.Proofs.Matching.Emission
import Coroscript.Proofs.Matching.Reading
import Coroscript.Proofs.Token.Tiling

namespace Coroscript

/-! What is between the tokens of a source, and where they stand, decides nothing but the
places of errors. -/

namespace Token

variable {tokens tokens' : List Token}

/-- The places at which tokens of one index start. -/
def Aligned (tokens tokens' : List Token) (left right : Position) : Prop :=
  ∃ (index : Nat) (token token' : Token),
    tokens[index]? = some token ∧ tokens'[index]? = some token' ∧
      left = token.span.start ∧ right = token'.span.start

theorem matches_aligned (hwords : List.Forall₂ SameWord tokens tokens') :
    List.Forall₂ (Matches (Aligned tokens tokens')) tokens tokens' := by
  obtain ⟨hlength, hword⟩ := List.forall₂_iff_get.1 hwords
  refine List.forall₂_iff_get.2 ⟨hlength, fun index hleft hright => ⟨hword index hleft hright, ?_⟩⟩
  exact ⟨index, _, _, List.getElem?_eq_getElem hleft, List.getElem?_eq_getElem hright, rfl, rfl⟩

end Token

/-- The tokens of a source text have their end mark. -/
theorem Cursor.tokens_ofTokens_scan {source file : String} {tokens : List Token}
    (hscan : Token.scan source file = .ok tokens) : (ofTokens tokens file).tokens = tokens := by
  obtain ⟨position, hlast⟩ := Token.getLast?_scan hscan
  cases tokens with
  | nil => cases hlast
  | cons first rest =>
      have hend : rest.getLastD first = Token.endMark position := by
        rw [List.getLast?_cons] at hlast
        rw [List.getLastD_eq_getLast?]
        exact Option.some.inj hlast
      rw [ofTokens, hend]
      rfl

theorem compileSource_of_scan {source file : String} {tokens : List Token}
    (hscan : Token.scan source file = .ok tokens) :
    compileSource source file = (Program.ofTokens tokens file >>= Program.compile) := by
  rw [compileSource, hscan]
  rfl

theorem agree_compileSource {positions : Position → Position → Prop}
    {source source' file file' : String} {tokens tokens' : List Token}
    (hscan : Token.scan source file = .ok tokens)
    (hscan' : Token.scan source' file' = .ok tokens')
    (hmatches : List.Forall₂ (Token.Matches positions) tokens tokens') :
    Agree Eq (Error.Matches positions False) (compileSource source file)
      (compileSource source' file') := by
  have hcursors : Cursor.Matches positions (.ofTokens tokens file) (.ofTokens tokens' file') := by
    rw [Cursor.Matches, Cursor.tokens_ofTokens_scan hscan, Cursor.tokens_ofTokens_scan hscan']
    exact hmatches
  rw [compileSource_of_scan hscan, compileSource_of_scan hscan']
  apply Agree.bind (Grammar.relates_program file file' _ _ hcursors).1
  intro program program' hprogram
  exact Program.agree_compile hprogram

/-- Sources with the same words mean the same program or are refused for the same cause, at
the same word. -/
theorem compileSource_of_sameWords {source source' file file' : String}
    {tokens tokens' : List Token} (hscan : Token.scan source file = .ok tokens)
    (hscan' : Token.scan source' file' = .ok tokens')
    (hwords : List.Forall₂ Token.SameWord tokens tokens') :
    (∃ code, compileSource source file = .ok code ∧ compileSource source' file' = .ok code) ∨
      ∃ (cause : Cause) (index : Nat) (token token' : Token),
        tokens[index]? = some token ∧ tokens'[index]? = some token' ∧
          compileSource source file = .error ⟨cause, token.span.start⟩ ∧
          compileSource source' file' = .error ⟨cause, token'.span.start⟩ := by
  have hagree := agree_compileSource hscan hscan' (Token.matches_aligned hwords)
  revert hagree
  generalize compileSource source file = result
  generalize compileSource source' file' = result'
  intro hagree
  cases hagree with
  | ok hcode =>
      subst hcode
      exact .inl ⟨_, rfl, rfl⟩
  | @error error error' herror =>
      obtain ⟨cause, position⟩ := error
      obtain ⟨cause', position'⟩ := error'
      obtain ⟨hcause, -, index, token, token', htoken, htoken', hstart, hstart'⟩ := herror
      cases hcause
      cases hstart
      cases hstart'
      exact .inr ⟨cause, index, token, token', htoken, htoken', rfl, rfl⟩

/-- A comment and line breaks stand before a name that is undefined. -/
theorem compileSource_of_sameWords_undefined :
    ∃ tokens tokens' : List Token,
      Token.scan "x=y;" "f" = .ok tokens ∧ Token.scan "x=\n//é\ny;" "g" = .ok tokens' ∧
      List.Forall₂ Token.SameWord tokens tokens' ∧
      ∃ (cause : Cause) (index : Nat) (token token' : Token),
        tokens[index]? = some token ∧ tokens'[index]? = some token' ∧
          compileSource "x=y;" "f" = .error ⟨cause, token.span.start⟩ ∧
          compileSource "x=\n//é\ny;" "g" = .error ⟨cause, token'.span.start⟩ := by
  have hscan : Token.scan "x=y;" "f" = .ok (Token.ofLexemes "f" 0
      [⟨.token .identifier, ['x']⟩, ⟨.token .assignment, ['=']⟩, ⟨.token .identifier, ['y']⟩,
        ⟨.token .semicolon, [';']⟩]) :=
    Token.scan_of_cut "f" <| Lexeme.cut_of_next? rfl <| Lexeme.cut_of_next? rfl <|
      Lexeme.cut_of_next? rfl <| Lexeme.cut_of_next? rfl Lexeme.cut_nil
  have hscan' : Token.scan "x=\n//é\ny;" "g" = .ok (Token.ofLexemes "g" 0
      [⟨.token .identifier, ['x']⟩, ⟨.token .assignment, ['=']⟩, ⟨.blank, ['\n']⟩,
        ⟨.comment, ['/', '/', 'é']⟩, ⟨.blank, ['\n']⟩, ⟨.token .identifier, ['y']⟩,
        ⟨.token .semicolon, [';']⟩]) :=
    Token.scan_of_cut "g" <| Lexeme.cut_of_next? rfl <| Lexeme.cut_of_next? rfl <|
      Lexeme.cut_of_next? rfl <| Lexeme.cut_of_next? rfl <| Lexeme.cut_of_next? rfl <|
      Lexeme.cut_of_next? rfl <| Lexeme.cut_of_next? rfl Lexeme.cut_nil
  refine ⟨_, _, hscan, hscan', ?words,
    (compileSource_of_sameWords hscan hscan' ?words).resolve_left ?refused⟩
  case words =>
    exact .cons ⟨rfl, rfl⟩ <| .cons ⟨rfl, rfl⟩ <| .cons ⟨rfl, rfl⟩ <| .cons ⟨rfl, rfl⟩ <|
      .cons ⟨rfl, rfl⟩ .nil
  case refused =>
    intro haccepted
    obtain ⟨code, hcode, -⟩ := haccepted
    rw [compileSource_of_scan hscan] at hcode
    cases hcode

end Coroscript
