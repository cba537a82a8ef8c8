import Coroscript.Proofs.Compile.Layout

namespace Coroscript

/-! The faults that only a translator with an error in it could report are never reported. A
run is compared with itself: what holds of two runs holds of one. -/

/-! Trees of the reader. -/

namespace Stmt

mutual

/-- The statements inside a statement, at any depth. -/
def within : Stmt → List Stmt
  | .block body _ | .function _ _ body _ _ | .coroutine _ _ body _ _
  | .entryPoint _ body _ _ => withinAll body
  | .ifThen _ thenBody _ => thenBody :: thenBody.within
  | .ifElse _ thenBody elseBody _ =>
      thenBody :: thenBody.within ++ elseBody :: elseBody.within
  | .expression _ _ | .define _ _ _ | .returns _ _ | .yields _ _ | .print _ _
  | .forwardFunction _ _ _ | .forwardCoroutine _ _ _ => []

def withinAll : List Stmt → List Stmt
  | [] => []
  | first :: others => first :: first.within ++ withinAll others

end

variable {positions : Position → Position → Prop}

mutual

theorem Matches.plain : ∀ (left : Stmt) {right : Stmt}, left.Matches positions False right →
    ∀ inner ∈ left :: left.within, inner.declaration? = none
  | .expression _ _, _, .expression _ _ => by simp [within, declaration?]
  | .define _ _ _, _, .define _ _ => by simp [within, declaration?]
  | .returns _ _, _, .returns _ _ => by simp [within, declaration?]
  | .yields _ _, _, .yields _ _ => by simp [within, declaration?]
  | .print _ _, _, .print _ _ => by simp [within, declaration?]
  | .block body _, _, .block hbody _ => by
      rw [within]
      exact List.forall_mem_cons.2 ⟨rfl, Matches.plain_all body hbody⟩
  | .ifThen _ thenBody _, _, .ifThen _ hthen _ => by
      rw [within]
      exact List.forall_mem_cons.2 ⟨rfl, Matches.plain thenBody hthen⟩
  | .ifElse _ thenBody elseBody _, _, .ifElse _ hthen helse _ => by
      rw [within]
      exact List.forall_mem_cons.2 ⟨rfl,
        List.forall_mem_append.2 ⟨Matches.plain thenBody hthen, Matches.plain elseBody helse⟩⟩

theorem Matches.plain_all : ∀ (left : List Stmt) {right : List Stmt},
    List.Forall₂ (Matches positions False) left right →
      ∀ inner ∈ withinAll left, inner.declaration? = none
  | _, _, .nil => by simp [withinAll]
  | first :: others, _, .cons hfirst hothers => by
      rw [withinAll]
      exact List.forall_mem_append.2 ⟨Matches.plain first hfirst, Matches.plain_all others hothers⟩

end

/-- A definition, of a variable or of a callable, that holds no callable inside. -/
def IsItem (item : Stmt) : Prop :=
  (item.defined?.isSome ∨ item.declaration?.isSome) ∧
    ∀ inner ∈ item.within, inner.declaration? = none

theorem MatchesItem.isItem {left right : Stmt} (hmatches : left.MatchesItem positions False right) :
    left.IsItem := by
  cases hmatches with
  | define | forwardFunction | forwardCoroutine =>
      refine ⟨by simp [defined?, declaration?], ?_⟩
      rw [within]
      exact fun _ hinner => nomatch hinner
  | function _ hbody | coroutine _ hbody | entryPoint hbody =>
      refine ⟨.inr rfl, ?_⟩
      rw [within]
      exact Matches.plain_all _ hbody
  | misplaced hloose => exact hloose.elim

end Stmt

theorem Program.isItem_of_ofTokens {tokens : List Token} {file : String} {program : Program}
    (hread : ofTokens tokens file = .ok program) : ∀ item ∈ program.items, item.IsItem := by
  have hcursor : Cursor.Matches (fun _ _ => True) (.ofTokens tokens file) (.ofTokens tokens file) :=
    List.forall₂_same.2 fun _ _ => ⟨⟨rfl, rfl⟩, trivial⟩
  have hagree := (Grammar.relates_program file file _ _ hcursor).1
  rw [show (Grammar.standard.program file (.ofTokens tokens file)).1 = .ok program from hread]
    at hagree
  cases hagree with
  | ok hprogram =>
      intro item hitem
      exact (List.forall₂_same.1 hprogram.items item hitem).isItem

/-! Causes. -/

theorem Cause.not_internal {cause : Cause} (hreportable : cause.Reportable False) :
    cause ≠ .scopeUnderflow ∧ ∀ expected, cause ≠ .malformedTree expected := by
  constructor
  · intro heq
    rwa [heq] at hreportable
  · intro expected heq
    rwa [heq] at hreportable

theorem Agree.error_self {ε α : Type} {results : α → α → Prop} {errors : ε → ε → Prop} {e : ε}
    (hagree : Agree results errors (.error e) (.error e)) : errors e e := by
  cases hagree with
  | error herrors => exact herrors

theorem Token.scan_error {source file : String} {error : Error}
    (hscan : scan source file = .error error) :
    ∃ token, error.cause = .unrecognisedToken token := by
  rw [scan] at hscan
  split at hscan
  · contradiction
  · cases hscan
    exact ⟨_, rfl⟩

theorem compileSource_error_reportable {source file : String} {error : Error}
    (herror : compileSource source file = .error error) : error.cause.Reportable False := by
  cases hscan : Token.scan source file with
  | error refusal =>
      rw [compileSource, hscan] at herror
      cases herror
      obtain ⟨token, hcause⟩ := Token.scan_error hscan
      rw [hcause]
      trivial
  | ok tokens =>
      have hmatches : List.Forall₂ (Token.Matches fun _ _ => True) tokens tokens :=
        List.forall₂_same.2 fun _ _ => ⟨⟨rfl, rfl⟩, trivial⟩
      have hagree := agree_compileSource hscan hscan hmatches
      rw [herror] at hagree
      exact hagree.error_self.reportable

theorem Program.compile_error_reportable {program : Program} {error : Error}
    (herror : program.compile = .error error) : error.cause.Reportable True := by
  have hmatches : program.Matches (fun _ _ => True) True program :=
    .refl (fun _ => trivial) trivial program
  have hagree := agree_compile hmatches
  rw [herror] at hagree
  exact hagree.error_self.reportable

/-- No source is refused for a fault of the translator: trees that were read are programs,
and no frame is left that was not entered, whatever the tree. -/
theorem compileSource_error_not_internal :
    (∀ source file error, compileSource source file = .error error →
      error.cause ≠ .scopeUnderflow ∧ ∀ expected, error.cause ≠ .malformedTree expected) ∧
    (∀ tokens file program, Program.ofTokens tokens file = .ok program →
      ∀ item ∈ program.items, item.IsItem) ∧
    ∀ (program : Program) (error : Error), program.compile = .error error →
      error.cause ≠ .scopeUnderflow := by
  refine ⟨?_, ?_, ?_⟩
  · intro source file error herror
    exact Cause.not_internal (compileSource_error_reportable herror)
  · intro tokens file program hread
    exact Program.isItem_of_ofTokens hread
  · intro program error herror heq
    have hreportable := Program.compile_error_reportable herror
    rwa [heq] at hreportable

/-- A bare statement at the top level, a block in a body, and a definition in a body of a
tree that no source has. -/
theorem compileSource_error_not_internal_misplaced :
    let words : List Token :=
      [⟨.keyDef, "def", default⟩, ⟨.identifier, "main", default⟩, ⟨.openParen, "(", default⟩,
        ⟨.closeParen, ")", default⟩, ⟨.openCurly, "\x7b", default⟩,
        ⟨.openCurly, "\x7b", default⟩, ⟨.closeCurly, "\x7d", default⟩,
        ⟨.closeCurly, "\x7d", default⟩]
    let nested : Program :=
      ⟨[.entryPoint [] [.block [.entryPoint [] [] default default] default] default default],
        default⟩
    (∃ error, compileSource "x;" "f" = .error error ∧ error.cause ≠ .scopeUnderflow ∧
      ∀ expected, error.cause ≠ .malformedTree expected) ∧
    (∃ (program : Program) (item : Stmt), Program.ofTokens words "f" = .ok program ∧
      program.items = [item] ∧ item.IsItem) ∧
    ∃ error, nested.compile = .error error ∧ error.cause ≠ .scopeUnderflow := by
  intro words nested
  obtain ⟨hsource, htokens, htree⟩ := compileSource_error_not_internal
  have hscan : Token.scan "x;" "f" = .ok (Token.ofLexemes "f" 0
      [⟨.token .identifier, ['x']⟩, ⟨.token .semicolon, [';']⟩]) :=
    Token.scan_of_cut "f" <| Lexeme.cut_of_next? rfl <| Lexeme.cut_of_next? rfl Lexeme.cut_nil
  have herror : ∃ error, compileSource "x;" "f" = .error error := by
    rw [compileSource_of_scan hscan]
    exact ⟨_, rfl⟩
  have hread : ∃ (program : Program) (item : Stmt),
      Program.ofTokens words "f" = .ok program ∧ program.items = [item] :=
    ⟨_, _, rfl, rfl⟩
  obtain ⟨error, herror⟩ := herror
  obtain ⟨program, item, hread, hitems⟩ := hread
  have hitem : item ∈ program.items := hitems ▸ List.mem_singleton_self item
  exact ⟨⟨error, herror, hsource _ _ error herror⟩,
    ⟨program, item, hread, hitems, htokens _ _ program hread item hitem⟩,
    ⟨_, rfl, htree nested _ rfl⟩⟩

end Coroscript
