import Coroscript.Proofs.Compile.Strings
import Coroscript.Proofs.Emit.Flattening

namespace Coroscript

/-! The literals, brackets and lines of an emitted program. -/

open Cpp

namespace Emit

section Units

variable {tree : Stmt} {trees : List Stmt} {text flat : String} {texts flats : List String}

theorem ItemText.piece (hitem : ItemText tree text flat) : Piece true text flat := by
  cases hitem with
  | entryPoint _ hbody =>
      intro awaited
      have hhead : Woven true .ready awaited .ready awaited (entryHead ++ " ") (entryHead ++ " ") :=
        woven_phrase (by decide)
      exact hhead.append (hbody.any true awaited)
  | other _ htext => exact htext.any true

theorem ItemTexts.pieces (hitems : ItemTexts trees texts flats) :
    List.Forall₂ (Piece true) texts flats := by
  induction hitems with
  | nil => exact .nil
  | cons hitem _ ih => exact .cons hitem.piece ih

theorem piece_headers : Piece false headers headers :=
  piece_phrase (by decide)

theorem woven_unitText (hitems : ItemTexts trees texts flats) :
    Woven true .line [] .line [] (unitText texts) (unitText flats) := by
  have hseparator : isPhrase true .done [] .ready [] "\n\n".toList = true := by decide
  have hunit := piece_intercalate hseparator (.cons (piece_headers.any true) hitems.pieces)
    (List.cons_ne_nil _ _)
  exact (hunit []).atLine.append (woven_phrase (by decide))

theorem exists_unitText {program : Program} {words : List Token} {code : String}
    (hwords : program.Renders words) (hitems : program.Canonical)
    (hfits : ∀ word ∈ words, word.Fits) (hcompile : program.compile = .ok code) :
    ∃ texts flats, ItemTexts program.items texts flats ∧ code = unitText texts ∧
      (unitBy [] program .initial).1 = .ok (unitText flats) := by
  obtain ⟨hagree, -⟩ := inStep_unit hwords hitems hfits .initial .initial rfl
  have hcode : (unit program .initial).1 = .ok code := hcompile
  rw [hcode] at hagree
  generalize (unitBy [] program .initial).1 = result at hagree
  cases hagree with
  | ok hresults =>
      obtain ⟨texts, flats, htexts, hcodeText, rfl⟩ := hresults
      exact ⟨texts, flats, htexts, hcodeText, rfl⟩

end Units

theorem newline_not_mem_of_stems {inner : List Char} {origin? : Option Token}
    (hstems : Stems inner origin?) : '\n' ∉ inner := by
  cases hstems with
  | own hinner =>
      have hown : ∀ inner ∈ ownLiterals, '\n' ∉ inner := by decide
      exact hown inner hinner
  | token origin =>
      intro hline
      obtain ⟨byte, -, hbyte⟩ := List.mem_flatMap.1 hline
      exact absurd (isPrintable_of_mem_literalByte hbyte) (by decide)

end Emit

theorem Cpp.Reader.outside_of_newline {σ : Type} {reader : Reader σ} {before after : List Char}
    {state : σ} {last : σ × Option Bool}
    (hrun : reader.run (before ++ '\n' :: after) (state, none) = some last) :
    Outside before := by
  rw [run_append] at hrun
  obtain ⟨⟨middle, literal?⟩, hbefore, hrest⟩ := Option.bind_eq_some_iff.1 hrun
  rw [run_cons] at hrest
  obtain ⟨_, hnext, -⟩ := Option.bind_eq_some_iff.1 hrest
  obtain ⟨hliteral, -⟩ := next_newline hnext
  exact (outside_iff hbefore).2 hliteral

theorem exists_program_of_compileSource {source file code : String}
    (hcompile : compileSource source file = .ok code) :
    ∃ tokens words program, Token.scan source file = .ok tokens ∧
      Program.ofTokens tokens file = .ok program ∧ program.compile = .ok code ∧
      program.Canonical ∧ program.Renders words ∧ ∀ word ∈ words, word.Fits := by
  obtain ⟨tokens, hscan, hrest⟩ := Emit.bind_eq_ok_iff.1 hcompile
  obtain ⟨program, hread, hcode⟩ := Emit.bind_eq_ok_iff.1 hrest
  obtain ⟨words, position, rfl, hcanonical, hrenders, -⟩ := Program.renders_of_scan hscan hread
  exact ⟨_, words, program, hscan, hread, hcode, hcanonical, hrenders, fun word hword =>
    Token.fits_of_mem_scan hscan (List.mem_append_left _ hword)⟩

open Emit

/-- The text of a program has no line break in a literal, so that every line ends outside of
one; outside of literals its brackets are balanced, the innermost closed first; and but for the
spaces before them its lines are those that are emitted with no indentation. -/
theorem compileSource_layout_sound {source file code : String}
    (hcompile : compileSource source file = .ok code) :
    (∃ literals, literals? code.toList = some literals ∧ ∀ literal ∈ literals, '\n' ∉ literal) ∧
    (∀ before after, code.toList = before ++ '\n' :: after → Outside before) ∧
    brackets.run code.toList (⟨[], '\n'⟩, none) = some (⟨[], '\n'⟩, none) ∧
    ∃ tokens program flat, Token.scan source file = .ok tokens ∧
      Program.ofTokens tokens file = .ok program ∧
      (unitBy indentation program .initial).1 = .ok code ∧
      (unitBy [] program .initial).1 = .ok flat ∧
      (splitLines code.toList).map (List.dropWhile (· == ' ')) = splitLines flat.toList := by
  obtain ⟨tokens, words, program, hscan, hread, hcode, hcanonical, hrenders, hfits⟩ :=
    exists_program_of_compileSource hcompile
  obtain ⟨quotes, hquotes, -, hstems⟩ := quotes_compile hrenders hcanonical hfits hcode
  obtain ⟨texts, flats, htexts, rfl, hflat⟩ := exists_unitText hrenders hcanonical hfits hcode
  have hwoven := woven_unitText htexts
  obtain ⟨last, hlast, hrun⟩ := hwoven.nests '\n' (by decide)
  obtain rfl : last = '\n' := beq_iff_eq.1 hlast
  refine ⟨⟨_, hquotes.literals?, ?_⟩, ?_, hrun, _, program, _, hscan, hread, ?_, hflat, ?_⟩
  · intro literal hliteral
    obtain ⟨quote, hquote, rfl⟩ := List.mem_map.1 hliteral
    exact newline_not_mem_of_stems (hstems quote hquote)
  · intro before after htext
    rw [htext] at hrun
    exact Reader.outside_of_newline hrun
  · rw [unitBy_indentation]
    exact hcode
  · rw [← (hwoven.flush true rfl).1]
    exact splitLines_unindent (.inr (by simp [unitText]))

/-- A quote, a bracket and a line break are in a string. -/
theorem compileSource_layout_sound_quoted :
    ∃ code, compileSource "def main()\x7bif(1)print(\"\\\"\x7b\\n\");\x7d" "f" = .ok code ∧
      (∃ literals, literals? code.toList = some literals ∧ ∀ literal ∈ literals, '\n' ∉ literal) ∧
      (∀ before after, code.toList = before ++ '\n' :: after → Outside before) ∧
      brackets.run code.toList (⟨[], '\n'⟩, none) = some (⟨[], '\n'⟩, none) ∧
      ∃ tokens program flat,
        Token.scan "def main()\x7bif(1)print(\"\\\"\x7b\\n\");\x7d" "f" = .ok tokens ∧
        Program.ofTokens tokens "f" = .ok program ∧
        (unitBy indentation program .initial).1 = .ok code ∧
        (unitBy [] program .initial).1 = .ok flat ∧
        (splitLines code.toList).map (List.dropWhile (· == ' ')) = splitLines flat.toList := by
  have hscan : Token.scan "def main()\x7bif(1)print(\"\\\"\x7b\\n\");\x7d" "f" =
      .ok (Token.ofLexemes "f" 0
        [⟨.token .keyDef, "def".toList⟩, ⟨.blank, [' ']⟩, ⟨.token .identifier, "main".toList⟩,
          ⟨.token .openParen, ['(']⟩, ⟨.token .closeParen, [')']⟩, ⟨.token .openCurly, ['\x7b']⟩,
          ⟨.token .keyIf, "if".toList⟩, ⟨.token .openParen, ['(']⟩, ⟨.token .number, ['1']⟩,
          ⟨.token .closeParen, [')']⟩, ⟨.token .keyPrint, "print".toList⟩,
          ⟨.token .openParen, ['(']⟩, ⟨.token .string, "\"\\\"\x7b\\n\"".toList⟩,
          ⟨.token .closeParen, [')']⟩, ⟨.token .semicolon, [';']⟩,
          ⟨.token .closeCurly, ['\x7d']⟩]) :=
    Token.scan_of_cut "f" <| Lexeme.cut_of_next? rfl <| Lexeme.cut_of_next? rfl <|
      Lexeme.cut_of_next? rfl <| Lexeme.cut_of_next? rfl <| Lexeme.cut_of_next? rfl <|
      Lexeme.cut_of_next? rfl <| Lexeme.cut_of_next? rfl <| Lexeme.cut_of_next? rfl <|
      Lexeme.cut_of_next? rfl <| Lexeme.cut_of_next? rfl <| Lexeme.cut_of_next? rfl <|
      Lexeme.cut_of_next? rfl <| Lexeme.cut_of_next? rfl <| Lexeme.cut_of_next? rfl <|
      Lexeme.cut_of_next? rfl <| Lexeme.cut_of_next? rfl Lexeme.cut_nil
  obtain ⟨code, hcode⟩ : ∃ code,
      compileSource "def main()\x7bif(1)print(\"\\\"\x7b\\n\");\x7d" "f" = .ok code := by
    rw [compileSource_of_scan hscan]
    exact ⟨_, rfl⟩
  exact ⟨code, hcode, compileSource_layout_sound hcode⟩

end Coroscript
