import Coroscript.Proofs.Compile.Faults
import Coroscript.Proofs.Compile.Words
import Coroscript.Proofs.Static.Programs

namespace Coroscript

/-! The places that errors name. -/

variable {source file : String} {tokens : List Token}

theorem byteLength_toList (source : String) : byteLength source.toList = source.utf8ByteSize := by
  rw [byteLength_ofList, String.ofList_toList]

namespace Position.At

variable {position : Position} {before after : List Char}

theorem offset_le (hposition : position.At file before) (hsource : source.toList = before ++ after) :
    position.offset.toNat ≤ source.utf8ByteSize := by
  rw [hposition.2, ← byteLength_toList, hsource, byteLength_append]
  exact Nat.le_add_right _ _

theorem isValid (hposition : position.At file before) (hsource : source.toList = before ++ after) :
    String.Pos.Raw.IsValid source ⟨position.offset.toNat⟩ := by
  rw [String.Pos.Raw.isValid_iff_exists_append]
  refine ⟨.ofList before, .ofList after, ?_, ?_⟩
  · rw [← String.ofList_append, ← hsource, String.ofList_toList]
  · rw [hposition.2, byteLength_ofList]
    rfl

end Position.At

/-- Every token of a source starts at a character of it, or at its end. -/
theorem Token.start_at (hsize : source.utf8ByteSize < UInt32.size)
    (hscan : scan source file = .ok tokens) {token : Token} (htoken : token ∈ tokens) :
    ∃ before after, source.toList = before ++ after ∧ token.span.start.At file before := by
  rw [← byteLength_toList] at hsize
  obtain ⟨words, position, rfl, hend, htile⟩ := tile_of_scan_eq_ok hsize hscan
  rcases List.mem_append.1 htoken with hword | hmark
  · obtain ⟨left, middle, right, hsource, hcovers⟩ := htile.covers token hword
    exact ⟨left, middle ++ right, by rw [hsource, List.append_assoc], hcovers.start⟩
  · rw [List.mem_singleton] at hmark
    exact ⟨source.toList, [], (List.append_nil _).symm, hmark ▸ hend⟩

/-- A source whose characters form tokens is refused only at one of them. -/
theorem compileSource_error_start (hscan : Token.scan source file = .ok tokens) {error : Error}
    (herror : compileSource source file = .error error) :
    ∃ token ∈ tokens, error.position = token.span.start := by
  -- Compared with itself, a run ends at the start of a token of both.
  have hwords : List.Forall₂ Token.SameWord tokens tokens :=
    List.forall₂_same.2 fun _ _ => ⟨rfl, rfl⟩
  have hagree := agree_compileSource hscan hscan (Token.matches_aligned hwords)
  rw [herror] at hagree
  obtain ⟨index, token, _, htoken, _, hstart, _⟩ := hagree.error_self.position
  exact ⟨token, List.mem_of_getElem? htoken, hstart⟩

/-- A program whose definitions are all allowed, and none of them is the entry point. -/
theorem Program.compile_of_no_entryPoint {program : Program}
    (hlegal : ∀ before item after, program.items = before ++ item :: after →
      item.LegalAfter before)
    (hentry : ∀ parameters body bodySpan span,
      Stmt.entryPoint parameters body bodySpan span ∉ program.items) :
    program.compile = .error ⟨.undefinedFunction entryName, program.span.stop⟩ := by
  obtain ⟨hruns, hagrees⟩ := Emit.items_run Emit.State.agrees_initial program.items
  obtain ⟨after, texts, hitems⟩ := hruns.2 hlegal
  have hnone : Emit.hasEntryPoint after.names ≠ true := by
    rw [ne_eq, Emit.hasEntryPoint_iff (hagrees after ⟨texts, hitems⟩)]
    rintro ⟨parameters, body, bodySpan, span, hmem⟩
    exact hentry parameters body bodySpan span hmem
  rw [compile, Emit.unit, Action.bind_of_ok hitems]
  change ((if Emit.hasEntryPoint after.names then _ else _ : Emit.Emitter String) after).1 = _
  rw [if_neg hnone]
  rfl

/-- A source that is refused is refused at a place in it, between two characters: where no token
can be read, or where one of its tokens starts. If only the entry point is missing, it is the
end mark. -/
theorem compileSource_error_at_token (hsize : source.utf8ByteSize < UInt32.size) :
    (∀ error, compileSource source file = .error error →
      error.position.file = file ∧ error.position.offset.toNat ≤ source.utf8ByteSize ∧
      String.Pos.Raw.IsValid source ⟨error.position.offset.toNat⟩ ∧
      ((∃ before c after, source.toList = before ++ c :: after ∧ error.position.At file before ∧
          error.cause = .unrecognisedToken (.singleton c) ∧
          ∀ lexeme : Lexeme, lexeme.Belongs → ¬ lexeme.text <+: c :: after) ∨
        ∃ tokens token, Token.scan source file = .ok tokens ∧ token ∈ tokens ∧
          error.position = token.span.start)) ∧
    ∀ tokens program, Token.scan source file = .ok tokens →
      Program.ofTokens tokens file = .ok program →
      (∀ before item after, program.items = before ++ item :: after → item.LegalAfter before) →
      (∀ parameters body bodySpan span,
        Stmt.entryPoint parameters body bodySpan span ∉ program.items) →
      ∃ mark ∈ tokens.getLast?, mark.kind = .eof ∧
        mark.span.start.offset.toNat = source.utf8ByteSize ∧
        compileSource source file = .error ⟨.undefinedFunction entryName, mark.span.start⟩ := by
  constructor
  · intro error herror
    cases hscan : Token.scan source file with
    | error refusal =>
        rw [compileSource, hscan] at herror
        cases herror
        obtain ⟨before, c, after, words, hsource, hcause, hposition, -, hstuck⟩ :=
          Token.tile_of_scan_eq_error (byteLength_toList source ▸ hsize) hscan
        exact ⟨hposition.1, hposition.offset_le hsource, hposition.isValid hsource,
          .inl ⟨before, c, after, hsource, hposition, hcause, hstuck⟩⟩
    | ok tokens =>
        obtain ⟨token, htoken, hstart⟩ := compileSource_error_start hscan herror
        obtain ⟨before, after, hsource, hposition⟩ := Token.start_at hsize hscan htoken
        rw [← hstart] at hposition
        exact ⟨hposition.1, hposition.offset_le hsource, hposition.isValid hsource,
          .inr ⟨tokens, token, rfl, htoken, hstart⟩⟩
  · intro tokens program hscan hread hlegal hentry
    obtain ⟨words, position, htokens, -, -, hstop⟩ := Program.renders_of_scan hscan hread
    obtain ⟨_, _, htokens', hend, -⟩ :=
      Token.tile_of_scan_eq_ok (byteLength_toList source ▸ hsize) hscan
    obtain ⟨-, hmark⟩ := List.append_inj' (htokens.symm.trans htokens') rfl
    cases hmark
    refine ⟨Token.endMark position, by simp [htokens], rfl, ?_, ?_⟩
    · rw [← byteLength_toList]
      exact hend.2
    · rw [compileSource_of_scan hscan, hread]
      change program.compile = _
      rw [Program.compile_of_no_entryPoint hlegal hentry, hstop]
      rfl

/-- Every definition is allowed, and the source holds a character of two bytes. -/
theorem compileSource_error_at_token_missing_entryPoint :
    ∃ error tokens, compileSource "def f()\x7bprint(\"é\");\x7d" "g" = .error error ∧
      Token.scan "def f()\x7bprint(\"é\");\x7d" "g" = .ok tokens ∧
      error.position.offset.toNat ≤ "def f()\x7bprint(\"é\");\x7d".utf8ByteSize ∧
      String.Pos.Raw.IsValid "def f()\x7bprint(\"é\");\x7d" ⟨error.position.offset.toNat⟩ ∧
      ∃ mark ∈ tokens.getLast?, mark.kind = .eof ∧
        mark.span.start.offset.toNat = "def f()\x7bprint(\"é\");\x7d".utf8ByteSize ∧
        error = ⟨.undefinedFunction entryName, mark.span.start⟩ := by
  obtain ⟨tokens, hscan, htokens⟩ : ∃ tokens,
      Token.scan "def f()\x7bprint(\"é\");\x7d" "g" = .ok tokens ∧ tokens = Token.ofLexemes "g" 0
      [⟨.token .keyDef, "def".toList⟩, ⟨.blank, [' ']⟩, ⟨.token .identifier, ['f']⟩,
        ⟨.token .openParen, ['(']⟩, ⟨.token .closeParen, [')']⟩, ⟨.token .openCurly, ['\x7b']⟩,
        ⟨.token .keyPrint, "print".toList⟩, ⟨.token .openParen, ['(']⟩,
        ⟨.token .string, "\"é\"".toList⟩, ⟨.token .closeParen, [')']⟩,
        ⟨.token .semicolon, [';']⟩, ⟨.token .closeCurly, ['\x7d']⟩] := by
    refine ⟨_, ?_, rfl⟩
    exact Token.scan_of_cut "g" <| Lexeme.cut_of_next? rfl <| Lexeme.cut_of_next? rfl <|
      Lexeme.cut_of_next? rfl <| Lexeme.cut_of_next? rfl <| Lexeme.cut_of_next? rfl <|
      Lexeme.cut_of_next? rfl <| Lexeme.cut_of_next? rfl <| Lexeme.cut_of_next? rfl <|
      Lexeme.cut_of_next? rfl <| Lexeme.cut_of_next? rfl <| Lexeme.cut_of_next? rfl <|
      Lexeme.cut_of_next? rfl Lexeme.cut_nil
  obtain ⟨program, item, hread, hitems, hlegalItem, hfunction⟩ : ∃ program item,
      Program.ofTokens tokens "g" = .ok program ∧ program.items = [item] ∧ item.LegalAfter [] ∧
        ∀ parameters body bodySpan span, item ≠ .entryPoint parameters body bodySpan span := by
    subst htokens
    refine ⟨_, _, rfl, rfl, ?_, fun _ _ _ _ heq => by cases heq⟩
    simp [Stmt.LegalAfter, Stmt.declaration?, Signature.Admissible, globals, declarations,
      Stmt.LegalContents, Stmt.FreshParameters, Stmt.LegalAll, Stmt.Legal, Context.Covers,
      Expr.references]
  obtain ⟨hplace, hmissing⟩ :=
    @compileSource_error_at_token "def f()\x7bprint(\"é\");\x7d" "g" (by decide)
  have hlegal : ∀ before tree after, program.items = before ++ tree :: after →
      tree.LegalAfter before := by
    intro before tree after heq
    rw [hitems] at heq
    obtain ⟨rfl, hcons⟩ | ⟨_, rfl, hnil⟩ := List.cons_eq_append_iff.1 heq
    · cases hcons
      exact hlegalItem
    · simp at hnil
  have hentry : ∀ parameters body bodySpan span,
      Stmt.entryPoint parameters body bodySpan span ∉ program.items := by
    intro parameters body bodySpan span hmem
    rw [hitems, List.mem_singleton] at hmem
    exact hfunction parameters body bodySpan span hmem.symm
  obtain ⟨mark, hlast, heof, hend, herror⟩ := hmissing tokens program hscan hread hlegal hentry
  obtain ⟨-, hoffset, hvalid, -⟩ := hplace _ herror
  exact ⟨_, tokens, herror, hscan, hoffset, hvalid, mark, hlast, heof, hend, rfl⟩

end Coroscript
