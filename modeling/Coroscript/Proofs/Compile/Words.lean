import Coroscript.Proofs.Compile.Layout
import Coroscript.Proofs.Grammar.Programs

namespace Coroscript

/-! The words of a source, and the program that they spell. -/

namespace Token

theorem ofLexemes_eq_append {file : String} {offset : Nat} {text : List Char} :
    ∃ words position, ofLexemes file offset (Lexeme.cut text).1 = words ++ [endMark position] ∧
      Unended words := by
  fun_induction Lexeme.cut text generalizing offset with
  | case1 text hnext => exact ⟨[], _, rfl, unended_nil⟩
  | case2 text lexeme rest hnext lexemes stuck hrest ih =>
      rw [hrest] at ih
      obtain ⟨words, position, hwords, hunended⟩ := @ih (offset + byteLength lexeme.text)
      have hlexeme := (Lexeme.longest_of_next? hnext).1
      rw [ofLexemes]
      cases hclass : lexeme.lexClass with
      | token kind =>
          have hkind : kind ≠ .eof := by
            rintro rfl
            exact hlexeme.kind_ne_eof hclass
          simp only [hwords]
          exact ⟨_ :: words, position, rfl, hunended.cons rfl hkind⟩
      | blank => exact ⟨words, position, hwords, hunended⟩
      | comment => exact ⟨words, position, hwords, hunended⟩

/-- Only the last token of a source is an end mark. -/
theorem scan_eq_append {source file : String} {tokens : List Token}
    (hscan : scan source file = .ok tokens) :
    ∃ words position, tokens = words ++ [endMark position] ∧ Unended words := by
  rcases scan_cases source file with ⟨lexemes, hcut, hok⟩ | ⟨lexemes, c, after, hcut, herror⟩
  · obtain ⟨words, position, hwords, hunended⟩ :=
      @ofLexemes_eq_append file 0 source.toList
    rw [hcut] at hwords
    cases hscan.symm.trans hok
    exact ⟨words, position, hwords, hunended⟩
  · cases hscan.symm.trans herror

end Token

theorem Grammar.stop_of_program {file : String} {cursor after : Cursor} {program : Program}
    (hread : standard.program file cursor = (.ok program, after)) :
    program.span.stop = after.position := by
  obtain ⟨items, middle, -, hrest⟩ := Action.bind_eq_ok_iff.1 hread
  obtain ⟨stop, last, hstop, hreturn⟩ := Action.bind_eq_ok_iff.1 hrest
  obtain ⟨rfl, rfl⟩ := Action.pure_eq_ok_iff.1 hreturn
  cases hstop
  rfl

/-- A program that is read from a source has all its words but the end mark, and ends where
the end mark stands. -/
theorem Program.renders_of_scan {source file : String} {tokens : List Token} {program : Program}
    (hscan : Token.scan source file = .ok tokens) (hread : ofTokens tokens file = .ok program) :
    ∃ words position, tokens = words ++ [Token.endMark position] ∧ program.Canonical ∧
      program.Renders words ∧ program.span.stop = position := by
  have hprogram : Grammar.standard.program file (.ofTokens tokens file) = (.ok program, _) :=
    Prod.ext hread rfl
  obtain ⟨words, hwords, hcanonical, hrenders, heof⟩ :=
    Grammar.takes_program file _ (Cursor.ended_ofTokens tokens file) program _ hprogram
  rw [Cursor.tokens_ofTokens_scan hscan] at hwords
  obtain ⟨body, position, htokens, hbody⟩ := Token.scan_eq_append hscan
  -- Both divide the tokens at the first end mark.
  have hwordsEnd : Token.beforeEnd tokens = words := by
    rw [hwords]
    exact (RendersItems.unended hrenders hcanonical).beforeEnd_append
      (by simpa [Cursor.tokens] using heof)
  have hbodyEnd : Token.beforeEnd tokens = body := by
    rw [htokens]
    exact hbody.beforeEnd_append (by simp [Token.endMark])
  have hsame : words = body := hwordsEnd.symm.trans hbodyEnd
  subst hsame
  have hlast := List.append_cancel_left (htokens.symm.trans hwords)
  refine ⟨words, position, htokens, hcanonical, hrenders, ?_⟩
  rw [Grammar.stop_of_program hprogram, Cursor.position, ← (List.cons.inj hlast).1]
  rfl

end Coroscript
