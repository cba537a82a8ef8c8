import Coroscript.Proofs.Grammar.Contexts
import Coroscript.Proofs.Grammar.ReadBack

namespace Coroscript

/-! The reader of programs accepts the renderings of canonical programs and nothing else. -/

theorem Cursor.Ended.previousEnd_advance {cursor : Cursor} (hended : cursor.Ended)
    (hkind : cursor.current.kind ≠ .eof) :
    cursor.advance.previousEnd = cursor.current.span.stop := by
  have hstep := (hended.step hkind).1
  cases hrest : cursor.rest with
  | nil => simp [tokens, hrest] at hstep
  | cons next rest => simp [advance, hrest]

namespace Parser

variable {α β : Type} {cursor : Cursor} {holds : β → List Token → Cursor → Prop}
  {next : α → Parser β}

/-- What the reader returns at `cursor` is as `holds` says, of the words that it took and of
the place where it stopped. -/
def Takes (reader : Parser α) (cursor : Cursor) (holds : α → List Token → Cursor → Prop) :
    Prop :=
  cursor.Ended → ∀ found after, reader cursor = (.ok found, after) →
    ∃ words, cursor.tokens = words ++ after.tokens ∧ holds found words after

theorem takes_pure {b : β} (hb : holds b [] cursor) : Takes (pure b) cursor holds := by
  intro _ found after hread
  obtain ⟨rfl, rfl⟩ := Action.pure_eq_ok_iff.1 hread
  exact ⟨[], rfl, hb⟩

theorem takes_unexpectedBecause {message : String} :
    Takes (unexpectedBecause message : Parser β) cursor holds := by
  intro _ found after hread
  simp [unexpectedBecause] at hread

theorem takes_unexpected : Takes (unexpected : Parser β) cursor holds := by
  intro _ found after hread
  simp [unexpected] at hread

theorem Takes.bind {reader : Parser α} {keeps : α → List Token → Cursor → Prop}
    (hreader : Takes reader cursor keeps)
    (hnext : ∀ found words middle, keeps found words middle →
      Takes (next found) middle fun result more after => holds result (words ++ more) after) :
    Takes (reader >>= next) cursor holds := by
  intro hended result after hread
  obtain ⟨found, middle, hfound, hread⟩ := Action.bind_eq_ok_iff.1 hread
  obtain ⟨words, hwords, hkeeps⟩ := hreader hended found middle hfound
  obtain ⟨more, hmore, hholds⟩ :=
    hnext found words middle hkeeps (hended.suffix hwords) result after hread
  refine ⟨words ++ more, ?_, hholds⟩
  rw [hwords, hmore, List.append_assoc]

theorem Takes.imp {reader : Parser β} {keeps : β → List Token → Cursor → Prop}
    (hreader : Takes reader cursor keeps)
    (himp : ∀ found words after, keeps found words after → holds found words after) :
    Takes reader cursor holds := by
  intro hended found after hread
  obtain ⟨words, hwords, hkeeps⟩ := hreader hended found after hread
  exact ⟨words, hwords, himp found words after hkeeps⟩

theorem takes_look {view : Cursor → α} (hnext : Takes (next (view cursor)) cursor holds) :
    Takes (Action.gets view >>= next) cursor holds := by
  intro hended result after hread
  exact hnext hended result after hread

theorem takes_remaining {reader : Nat → Parser β}
    (hreader : Takes (reader cursor.remaining) cursor holds) :
    Takes (fun cursor => reader cursor.remaining cursor) cursor holds := by
  intro hended result after hread
  exact hreader hended result after hread

theorem takes_token_end {reader : Parser Token} {kind : TokenKind} {next : Token → Parser β}
    (hreader : ∀ {token after}, reader cursor = (.ok token, after) →
      cursor.current.kind = kind ∧ token = cursor.current ∧ after = cursor.advance)
    (hkind : kind ≠ .eof)
    (hnext : ∀ token middle, token.kind = kind → middle.previousEnd = token.span.stop →
      Takes (next token) middle fun result words after => holds result (token :: words) after) :
    Takes (reader >>= next) cursor holds := by
  intro hended result after hread
  obtain ⟨token, middle, htoken, hread⟩ := Action.bind_eq_ok_iff.1 hread
  obtain ⟨hcurrent, rfl, rfl⟩ := hreader htoken
  have hword : cursor.current.kind ≠ .eof := hcurrent ▸ hkind
  obtain ⟨hstep, hadvanced⟩ := hended.step hword
  obtain ⟨words, hwords, hholds⟩ := hnext cursor.current cursor.advance hcurrent
    (hended.previousEnd_advance hword) hadvanced result after hread
  refine ⟨cursor.current :: words, ?_, hholds⟩
  rw [hstep, hwords, List.cons_append]

theorem takes_token {reader : Parser Token} {kind : TokenKind} {next : Token → Parser β}
    (hreader : ∀ {token after}, reader cursor = (.ok token, after) →
      cursor.current.kind = kind ∧ token = cursor.current ∧ after = cursor.advance)
    (hkind : kind ≠ .eof)
    (hnext : ∀ token middle, token.kind = kind →
      Takes (next token) middle fun result words after => holds result (token :: words) after) :
    Takes (reader >>= next) cursor holds :=
  takes_token_end hreader hkind fun token middle htoken _ => hnext token middle htoken

theorem takes_advance {kind : TokenKind} {next : Token → Parser β}
    (hcurrent : cursor.current.kind = kind) (hkind : kind ≠ .eof)
    (hnext : ∀ token middle, token.kind = kind →
      Takes (next token) middle fun result words after => holds result (token :: words) after) :
    Takes (advance >>= next) cursor holds :=
  takes_token (fun htoken => ⟨hcurrent, advance_eq_ok htoken⟩) hkind hnext

theorem takes_expect {kind : TokenKind} {next : Token → Parser β} (hkind : kind ≠ .eof)
    (hnext : ∀ token middle, token.kind = kind →
      Takes (next token) middle fun result words after => holds result (token :: words) after) :
    Takes (expect kind >>= next) cursor holds :=
  takes_token expect_eq_ok hkind hnext

theorem takes_expectBecause {kind : TokenKind} {message : String} {next : Token → Parser β}
    (hkind : kind ≠ .eof)
    (hnext : ∀ token middle, token.kind = kind →
      Takes (next token) middle fun result words after => holds result (token :: words) after) :
    Takes (expectBecause kind message >>= next) cursor holds := by
  apply takes_token _ hkind hnext
  intro token after htoken
  unfold expectBecause at htoken
  split at htoken
  · rename_i hcurrent
    exact ⟨hcurrent, advance_eq_ok htoken⟩
  · simp [unexpectedBecause] at htoken

/-! Lists in parentheses. -/

variable {item : Parser α} {keeps : α → Prop} {renders : α → List Token → Prop}

theorem takes_separated
    (hitem : ∀ cursor, Takes item cursor fun a words _ => keeps a ∧ renders a words)
    (bound : Nat) (cursor : Cursor) :
    Takes (separated item bound) cursor fun items words _ =>
      (∀ a ∈ items, keeps a) ∧ RendersCommas renders items words := by
  induction bound generalizing cursor with
  | zero => exact takes_unexpected
  | succ bound ih =>
      rw [separated]
      apply Takes.bind (hitem cursor)
      intro first words middle hfirst
      apply takes_look
      split
      · rename_i hcomma
        apply takes_advance hcomma (by decide)
        intro comma behind hcomma
        apply Takes.bind (ih behind)
        intro others more after hothers
        apply takes_pure
        rw [List.append_nil]
        exact ⟨List.forall_mem_cons.2 ⟨hfirst.1, hothers.1⟩, .cons hfirst.2 hcomma hothers.2⟩
      · apply takes_pure
        rw [List.append_nil]
        exact ⟨List.forall_mem_singleton.2 hfirst.1, .last hfirst.2⟩

theorem takes_parenthesised
    (hitem : ∀ cursor, Takes item cursor fun a words _ => keeps a ∧ renders a words)
    (cursor : Cursor) :
    Takes (parenthesised item) cursor fun items words _ =>
      (∀ a ∈ items, keeps a) ∧ RendersParens renders items words := by
  rw [parenthesised]
  apply takes_expect (by decide)
  intro opening inside hopening
  apply takes_look
  split
  · rename_i hclosing
    apply takes_advance hclosing (by decide)
    intro closing after hclosing
    apply takes_pure
    exact ⟨fun a ha => by contradiction, .empty hopening hclosing⟩
  · apply Takes.bind (takes_remaining (takes_separated hitem inside.remaining inside))
    intro items words behind hitems
    apply takes_expect (by decide)
    intro closing after hclosing
    apply takes_pure
    exact ⟨hitems.1, .items hopening hitems.2 hclosing⟩

end Parser

namespace Grammar

open Coroscript.Parser

theorem takes_expr (cursor : Cursor) :
    Takes (standard.expr .lowest) cursor fun tree words _ =>
      Stratified .logical tree ∧ Renders tree words := by
  intro hended tree after hread
  obtain ⟨words, hwords, hspells, _⟩ := faithful_expr hended hread
  exact ⟨words, hwords, hspells.stratified, hspells.renders⟩

theorem takes_parameters (cursor : Cursor) :
    Takes parameters cursor fun items words _ => RendersParens RendersParameter items words := by
  have hitem (cursor : Cursor) : Takes (do
      let name ← expectBecause .identifier "expected parameter name"
      return ⟨name.value, name.span⟩) cursor fun parameter words _ =>
        True ∧ RendersParameter parameter words := by
    apply takes_expectBecause (by decide)
    intro name after hname
    apply takes_pure
    exact ⟨trivial, .name name.span hname⟩
  apply (takes_parenthesised hitem cursor).imp
  intro items words after hitems
  exact hitems.2

theorem takes_define (cursor : Cursor) :
    Takes (define standard) cursor fun stmt words _ => ∃ name value span,
      stmt = .define name value span ∧ Stratified .logical value ∧ RendersStmt stmt words := by
  have hassign (start : Position) (cursor : Cursor) :
      Takes (assignment standard start) cursor fun stmt words _ => ∃ name value span,
        stmt = .define name value span ∧ Stratified .logical value ∧
          RendersAssignment name value words := by
    rw [assignment]
    apply takes_expectBecause (by decide)
    intro name behind hname
    apply takes_expect (by decide)
    intro equals after hequals
    apply Takes.bind (takes_expr after)
    intro value words behind hvalue
    apply takes_expect (by decide)
    intro semicolon after hsemicolon
    apply takes_look
    apply takes_pure
    exact ⟨name.value, value, _, rfl, hvalue.1, .mk hname rfl hequals hvalue.2 hsemicolon⟩
  rw [define_eq]
  apply takes_look
  apply takes_look
  split
  · rename_i hkeyword
    apply takes_advance hkeyword (by decide)
    intro keyword behind hkeyword
    apply (hassign _ behind).imp
    intro stmt words after hstmt
    obtain ⟨name, value, span, rfl, hvalue, hwords⟩ := hstmt
    exact ⟨name, value, span, rfl, hvalue, .define span hkeyword hwords⟩
  · apply (hassign _ cursor).imp
    intro stmt words after hstmt
    obtain ⟨name, value, span, rfl, hvalue, hwords⟩ := hstmt
    exact ⟨name, value, span, rfl, hvalue, .assign span hwords⟩

/-! Statements, over a reader of those they hold. -/

/-- A canonical statement and the words that render it. What follows does not go on with
the statement. -/
def Accepts (stmt : Stmt) (words : List Token) (after : Cursor) : Prop :=
  stmt.Canonical ∧ RendersStmt stmt words ∧
    (stmt.endsOpen = true → after.current.kind ≠ .keyElse)

theorem accepts_closed {stmt : Stmt} {words : List Token} (hstmt : stmt.Canonical)
    (hwords : RendersStmt stmt words) (hclosed : stmt.endsOpen = false) (after : Cursor) :
    Accepts stmt words after := by
  refine ⟨hstmt, hwords, ?_⟩
  intro hopen
  rw [hclosed] at hopen
  contradiction

section Rules

variable {recurse : Parser Stmt} {cursor : Cursor}

theorem takes_expression (cursor : Cursor) : Takes (expression standard) cursor Accepts := by
  rw [expression]
  apply Takes.bind (takes_expr cursor)
  intro value words behind hvalue
  apply takes_expect (by decide)
  intro semicolon after hsemicolon
  apply takes_pure
  refine accepts_closed ?_ (.expression _ hvalue.2 hsemicolon) rfl _
  simpa only [Stmt.Canonical] using hvalue.1

theorem takes_define_stmt (cursor : Cursor) : Takes (define standard) cursor Accepts := by
  apply (takes_define cursor).imp
  intro stmt words after hstmt
  obtain ⟨name, value, span, rfl, hvalue, hwords⟩ := hstmt
  refine accepts_closed ?_ hwords rfl after
  simpa only [Stmt.Canonical] using hvalue

theorem takes_localDefine (cursor : Cursor) :
    Takes (localDefine standard) cursor Accepts := by
  rw [localDefine]
  apply takes_look
  apply takes_look
  split
  · exact takes_define_stmt cursor
  · exact takes_unexpectedBecause

theorem takes_returns (hcurrent : cursor.current.kind = .keyReturn) :
    Takes (returns standard) cursor Accepts := by
  rw [returns]
  apply takes_advance hcurrent (by decide)
  intro keyword behind hkeyword
  apply takes_look
  split
  · rename_i hsemicolon
    apply takes_advance hsemicolon (by decide)
    intro semicolon after hsemicolon
    apply takes_look
    apply takes_pure
    refine accepts_closed ?_ (.returnsNothing _ hkeyword hsemicolon) rfl _
    simp [Stmt.Canonical]
  · apply Takes.bind (takes_expr behind)
    intro value words behind hvalue
    apply takes_expect (by decide)
    intro semicolon after hsemicolon
    apply takes_look
    apply takes_pure
    refine accepts_closed ?_ (.returns _ hkeyword hvalue.2 hsemicolon) rfl _
    simpa [Stmt.Canonical] using hvalue.1

theorem takes_yields (hcurrent : cursor.current.kind = .keyYield) :
    Takes (yields standard) cursor Accepts := by
  rw [yields]
  apply takes_advance hcurrent (by decide)
  intro keyword behind hkeyword
  apply Takes.bind (takes_expr behind)
  intro value words behind hvalue
  apply takes_expect (by decide)
  intro semicolon after hsemicolon
  apply takes_look
  apply takes_pure
  refine accepts_closed ?_ (.yields _ hkeyword hvalue.2 hsemicolon) rfl _
  simpa only [Stmt.Canonical] using hvalue.1

theorem takes_print (hcurrent : cursor.current.kind = .keyPrint) :
    Takes (print standard) cursor Accepts := by
  rw [print]
  apply takes_advance hcurrent (by decide)
  intro keyword behind hkeyword
  apply Takes.bind (takes_parenthesised takes_expr behind)
  intro arguments words behind harguments
  apply takes_expect (by decide)
  intro semicolon after hsemicolon
  apply takes_look
  apply takes_pure
  refine accepts_closed ?_ (.print _ hkeyword harguments.2 hsemicolon) rfl _
  simpa only [Stmt.Canonical] using harguments.1

theorem takes_branch (hrecurse : ∀ cursor, Takes recurse cursor Accepts)
    (hcurrent : cursor.current.kind = .keyIf) :
    Takes (branch standard recurse) cursor Accepts := by
  rw [branch]
  apply takes_advance hcurrent (by decide)
  intro keyword behind hkeyword
  apply takes_expect (by decide)
  intro opening behind hopening
  apply Takes.bind (takes_expr behind)
  intro condition words behind hcondition
  apply takes_expect (by decide)
  intro closing behind hclosing
  apply Takes.bind (hrecurse behind)
  intro thenBody thenWords middle hthen
  obtain ⟨hthenBody, hthenWords, hthenOpen⟩ := hthen
  apply takes_look
  split
  · rename_i helse
    apply takes_advance helse (by decide)
    intro otherwise behind hotherwise
    apply Takes.bind (hrecurse behind)
    intro elseBody elseWords after helseBody
    apply takes_look
    apply takes_pure
    rw [List.append_nil]
    obtain ⟨helseBody, helseWords, helseOpen⟩ := helseBody
    -- An open first branch would have taken this `else` itself.
    have hclosed : thenBody.endsOpen = false := by
      cases hopen : thenBody.endsOpen with
      | false => rfl
      | true => exact absurd helse (hthenOpen hopen)
    refine ⟨?_, ?_, helseOpen⟩
    · simp only [Stmt.Canonical]
      exact ⟨hcondition.1, hthenBody, helseBody, hclosed⟩
    · exact .ifElse _ hkeyword hopening hcondition.2 hclosing hthenWords hotherwise helseWords
  · rename_i helse
    apply takes_look
    apply takes_pure
    rw [List.append_nil]
    refine ⟨?_, .ifThen _ hkeyword hopening hcondition.2 hclosing hthenWords, fun _ => helse⟩
    simp only [Stmt.Canonical]
    exact ⟨hcondition.1, hthenBody⟩

theorem takes_statements (hrecurse : ∀ cursor, Takes recurse cursor Accepts) (bound : Nat)
    (cursor : Cursor) :
    Takes (statements recurse bound) cursor fun body words _ =>
      Stmt.CanonicalAll body ∧ RendersBody body words := by
  induction bound generalizing cursor with
  | zero => exact takes_unexpected
  | succ bound ih =>
      rw [statements]
      apply takes_look
      split
      · apply takes_pure
        exact ⟨trivial, .nil⟩
      · exact takes_unexpectedBecause
      · apply Takes.bind (hrecurse cursor)
        intro first words middle hfirst
        apply Takes.bind (ih middle)
        intro others more after hothers
        apply takes_pure
        rw [List.append_nil]
        exact ⟨⟨hfirst.1, hothers.1⟩, .cons hfirst.2.1 hothers.2⟩

theorem takes_block (hrecurse : ∀ cursor, Takes recurse cursor Accepts) (cursor : Cursor) :
    Takes (block recurse) cursor fun found words _ =>
      Stmt.CanonicalAll found.1 ∧ RendersBlock found.1 words := by
  rw [block]
  apply takes_expect (by decide)
  intro opening inside hopening
  apply Takes.bind (takes_remaining (takes_statements hrecurse inside.remaining inside))
  intro body words behind hbody
  apply takes_expect (by decide)
  intro closing after hclosing
  apply takes_pure
  exact ⟨hbody.1, .braces hopening hbody.2 hclosing⟩

end Rules

theorem takes_block_stmt {recurse : Parser Stmt}
    (hrecurse : ∀ cursor, Takes recurse cursor Accepts) (cursor : Cursor) :
    Takes (stmtBy standard recurse .block) cursor Accepts := by
  rw [stmtBy]
  apply Takes.bind (takes_block hrecurse cursor)
  intro found words after hbody
  apply takes_pure
  rw [List.append_nil]
  refine accepts_closed ?_ (.block _ hbody.2) rfl _
  simpa only [Stmt.Canonical] using hbody.1

theorem takes_stmtBy {recurse : Parser Stmt} {cursor : Cursor} {rule : StmtRule}
    (hrecurse : ∀ cursor, Takes recurse cursor Accepts)
    (hrule : standard.stmt? cursor.current.kind = some rule) :
    Takes (stmtBy standard recurse rule) cursor Accepts := by
  simp only [standard] at hrule
  split at hrule
  · cases hrule
    exact takes_block_stmt hrecurse cursor
  · rename_i hcurrent
    cases hrule
    exact takes_branch hrecurse hcurrent
  · rename_i hcurrent
    cases hrule
    exact takes_returns hcurrent
  · rename_i hcurrent
    cases hrule
    exact takes_yields hcurrent
  · rename_i hcurrent
    cases hrule
    exact takes_print hcurrent
  · cases hrule
    exact takes_localDefine cursor
  · contradiction

theorem takes_stmtWithin (depth : Nat) (cursor : Cursor) :
    Takes (stmtWithin standard depth) cursor Accepts := by
  induction depth generalizing cursor with
  | zero => exact takes_unexpected
  | succ depth ih =>
      rw [stmtWithin]
      apply takes_look
      cases hrule : standard.stmt? cursor.current.kind with
      | some rule => exact takes_stmtBy ih hrule
      | none =>
          apply takes_look
          apply takes_look
          split
          · exact takes_define_stmt cursor
          · exact takes_expression cursor

theorem takes_stmt (cursor : Cursor) : Takes standard.stmt cursor Accepts := by
  apply takes_remaining
  exact takes_stmtWithin cursor.remaining cursor

/-! Definitions and programs. -/

theorem takes_body? (cursor : Cursor) :
    Takes (body? standard.stmt) cursor fun found words _ =>
      match found with
      | none => ∃ semicolon, words = [semicolon] ∧ semicolon.kind = .semicolon
      | some (body, _) => Stmt.CanonicalAll body ∧ RendersBlock body words := by
  rw [body?]
  apply takes_look
  split
  · rename_i hsemicolon
    apply takes_advance hsemicolon (by decide)
    intro semicolon after hsemicolon
    apply takes_pure
    exact ⟨semicolon, rfl, hsemicolon⟩
  · apply Takes.bind (takes_block takes_stmt cursor)
    intro found words after hbody
    apply takes_pure
    rw [List.append_nil]
    exact hbody

/-- A canonical definition and the words that render it. -/
def AcceptsItem (item : Stmt) (words : List Token) (_ : Cursor) : Prop :=
  item.CanonicalItem ∧ RendersItem item words

theorem takes_function {cursor : Cursor} (hcurrent : cursor.current.kind = .keyDef) :
    Takes (function standard.stmt) cursor AcceptsItem := by
  rw [function]
  apply takes_advance hcurrent (by decide)
  intro keyword behind hkeyword
  apply takes_expect (by decide)
  intro name behind hname
  apply Takes.bind (takes_parameters behind)
  intro items words behind hitems
  split
  · rename_i hentry
    apply Takes.bind (takes_block takes_stmt behind)
    intro found bodyWords after hbody
    apply takes_look
    apply takes_pure
    rw [List.append_nil]
    exact ⟨hbody.1, .entryPoint _ _ hkeyword hname hentry hitems hbody.2⟩
  · rename_i hentry
    apply Takes.bind (takes_body? behind)
    intro found bodyWords after hbody
    cases found with
    | none =>
        obtain ⟨semicolon, rfl, hsemicolon⟩ := hbody
        apply takes_look
        apply takes_pure
        exact ⟨hentry, .forwardFunction _ hkeyword hname hitems hsemicolon⟩
    | some found =>
        apply takes_look
        apply takes_pure
        rw [List.append_nil]
        exact ⟨⟨hentry, hbody.1⟩, .function _ _ hkeyword hname hitems hbody.2⟩

theorem takes_coroutine {cursor : Cursor} (hcurrent : cursor.current.kind = .keyDef) :
    Takes (coroutine standard.stmt) cursor AcceptsItem := by
  rw [coroutine]
  apply takes_advance hcurrent (by decide)
  intro keyword behind hkeyword
  apply takes_expect (by decide)
  intro word behind hword
  apply takes_expectBecause (by decide)
  intro name behind hname
  apply Takes.bind (takes_parameters behind)
  intro items words behind hitems
  apply Takes.bind (takes_body? behind)
  intro found bodyWords after hbody
  cases found with
  | none =>
      obtain ⟨semicolon, rfl, hsemicolon⟩ := hbody
      apply takes_look
      apply takes_pure
      exact ⟨trivial, .forwardCoroutine _ hkeyword hword hname hitems hsemicolon⟩
  | some found =>
      apply takes_look
      apply takes_pure
      rw [List.append_nil]
      exact ⟨hbody.1, .coroutine _ _ hkeyword hword hname hitems hbody.2⟩

theorem takes_item (cursor : Cursor) : Takes standard.item cursor AcceptsItem := by
  have hdefine : Takes (define standard) cursor AcceptsItem := by
    apply (takes_define cursor).imp
    intro stmt words after hstmt
    obtain ⟨name, value, span, rfl, hvalue, hwords⟩ := hstmt
    exact ⟨hvalue, .define hwords⟩
  rw [Grammar.item, itemWith]
  apply takes_look
  apply takes_look
  apply takes_look
  split
  · rename_i hcurrent _
    exact takes_coroutine hcurrent
  · rename_i hcurrent _ _
    exact takes_function hcurrent
  · exact hdefine
  · exact hdefine
  · exact takes_unexpectedBecause

theorem takes_items (bound : Nat) (cursor : Cursor) :
    Takes (items standard bound) cursor fun list words after =>
      (∀ item ∈ list, item.CanonicalItem) ∧ RendersItems list words ∧
        after.current.kind = .eof := by
  induction bound generalizing cursor with
  | zero => exact takes_unexpected
  | succ bound ih =>
      rw [items]
      apply takes_look
      split
      · rename_i hmark
        apply takes_pure
        exact ⟨fun item hitem => by contradiction, .nil, hmark⟩
      · apply Takes.bind (takes_item cursor)
        intro first words middle hfirst
        apply Takes.bind (ih middle)
        intro others more after hothers
        obtain ⟨hcanonical, hmore, hmark⟩ := hothers
        apply takes_pure
        rw [List.append_nil]
        exact ⟨List.forall_mem_cons.2 ⟨hfirst.1, hcanonical⟩, .cons hfirst.2 hmore, hmark⟩

theorem takes_program (file : String) (cursor : Cursor) :
    Takes (standard.program file) cursor fun program words after =>
      program.Canonical ∧ program.Renders words ∧ after.current.kind = .eof := by
  rw [Grammar.program]
  apply Takes.bind (takes_remaining (takes_items cursor.remaining cursor))
  intro list words after hlist
  apply takes_look
  apply takes_pure
  rw [List.append_nil]
  exact hlist

end Grammar

/-- The tokens before the first end mark. -/
def Token.beforeEnd (tokens : List Token) : List Token :=
  tokens.takeWhile fun token => token.kind != .eof

theorem Unended.beforeEnd_append {words rest : List Token} (hwords : Unended words)
    (hrest : ∀ token ∈ rest.head?, token.kind = .eof) :
    Token.beforeEnd (words ++ rest) = words := by
  have hall : ∀ word ∈ words, (word.kind != .eof) = true :=
    fun word hword => bne_iff_ne.2 (hwords word hword)
  rw [Token.beforeEnd, List.takeWhile_append_of_pos hall]
  cases rest with
  | nil => exact List.append_nil words
  | cons mark others => simp [hrest mark rfl]

theorem Token.beforeEnd_append_marks {tokens marks : List Token}
    (hmarks : ∀ mark ∈ marks, mark.kind = .eof) :
    beforeEnd (tokens ++ marks) = beforeEnd tokens := by
  induction tokens with
  | nil =>
      cases marks with
      | nil => rfl
      | cons mark marks => simp [beforeEnd, hmarks mark List.mem_cons_self]
  | cons token tokens ih =>
      rw [beforeEnd, beforeEnd, List.cons_append, List.takeWhile_cons, List.takeWhile_cons]
      split
      · exact congrArg (token :: ·) ih
      · rfl

theorem Cursor.tokens_ofTokens (tokens : List Token) (file : String) :
    ∃ marks, (ofTokens tokens file).tokens = tokens ++ marks ∧
      ∀ mark ∈ marks, mark.kind = .eof := by
  have hmark (position : Position) : ∀ mark ∈ [Token.endMark position], mark.kind = .eof :=
    List.forall_mem_singleton.2 rfl
  cases tokens with
  | nil => exact ⟨_, rfl, hmark _⟩
  | cons first rest =>
      rw [ofTokens]
      split
      · exact ⟨[], (List.append_nil _).symm, fun mark hmark => by contradiction⟩
      · exact ⟨_, rfl, hmark _⟩

/-- Behind words without an end mark, the cursor comes to one. -/
theorem Cursor.tokens_ofTokens_append {words rest : List Token} (file : String)
    (hwords : Unended words) (hrest : ∀ token ∈ rest.head?, token.kind = .eof) :
    ∃ mark others, (ofTokens (words ++ rest) file).tokens = words ++ mark :: others ∧
      mark.kind = .eof := by
  obtain ⟨marks, htokens, hmarks⟩ := tokens_ofTokens (words ++ rest) file
  obtain ⟨last, hlast, heof⟩ := ended_ofTokens (words ++ rest) file
  rw [List.append_assoc] at htokens
  cases hbehind : rest ++ marks with
  | nil =>
      rw [htokens, hbehind, List.append_nil] at hlast
      exact absurd heof (hwords last (List.mem_of_getLast? hlast))
  | cons mark others =>
      refine ⟨mark, others, by rw [htokens, hbehind], ?_⟩
      cases rest with
      | nil => exact hmarks mark (by rw [← List.nil_append marks, hbehind]; exact .head others)
      | cons first rest =>
          cases hbehind
          exact hrest mark rfl

namespace Program

/-- Reading returns each canonical program from each of its renderings, spans aside, and
succeeds on nothing else. -/
theorem ofTokens_renderings (file : String) :
    (∀ (program : Program) (words rest : List Token), program.Canonical →
      program.Renders words → (∀ token ∈ rest.head?, token.kind = .eof) →
      ∃ found, ofTokens (words ++ rest) file = .ok found ∧
        found.unspanned = program.unspanned) ∧
    ∀ (tokens : List Token) (program : Program), ofTokens tokens file = .ok program →
      program.Canonical ∧ program.Renders (Token.beforeEnd tokens) := by
  constructor
  · intro program words rest hprogram hwords hrest
    obtain ⟨mark, others, htokens, hmark⟩ :=
      Cursor.tokens_ofTokens_append file (hwords.unended hprogram) hrest
    obtain ⟨found, after, hread, _, hfound⟩ :=
      Grammar.reads_program file hwords hprogram hmark _ (List.cons_ne_nil _ _) htokens
    exact ⟨found, by rw [ofTokens, hread], hfound⟩
  · intro tokens program hread
    obtain ⟨words, htokens, hprogram, hwords, hmark⟩ :=
      Grammar.takes_program file _ (Cursor.ended_ofTokens tokens file) program _
        (Prod.ext hread rfl)
    obtain ⟨marks, hadded, hmarks⟩ := Cursor.tokens_ofTokens tokens file
    have hbefore : Token.beforeEnd tokens = words := by
      rw [← Token.beforeEnd_append_marks hmarks, ← hadded, htokens]
      apply (hwords.unended hprogram).beforeEnd_append
      intro token htoken
      cases htoken
      exact hmark
    rw [hbefore]
    exact ⟨hprogram, hwords⟩

/-- A definition without its keyword, and an `else` that goes to the inner of two `if`s. -/
theorem ofTokens_renderings_dangling_else :
    let words : List Token :=
      [⟨.identifier, "x", default⟩, ⟨.assignment, "=", default⟩, ⟨.number, "1", default⟩,
        ⟨.semicolon, ";", default⟩, ⟨.keyDef, "def", default⟩, ⟨.identifier, "main", default⟩,
        ⟨.openParen, "(", default⟩, ⟨.closeParen, ")", default⟩,
        ⟨.openCurly, "\x7b", default⟩, ⟨.keyIf, "if", default⟩, ⟨.openParen, "(", default⟩,
        ⟨.identifier, "x", default⟩, ⟨.closeParen, ")", default⟩, ⟨.keyIf, "if", default⟩,
        ⟨.openParen, "(", default⟩, ⟨.identifier, "x", default⟩, ⟨.closeParen, ")", default⟩,
        ⟨.keyReturn, "return", default⟩, ⟨.semicolon, ";", default⟩,
        ⟨.keyElse, "else", default⟩, ⟨.keyReturn, "return", default⟩,
        ⟨.semicolon, ";", default⟩, ⟨.closeCurly, "\x7d", default⟩]
    let inner : Stmt :=
      .ifElse (.symbol "x" default) (.returns none default) (.returns none default) default
    let tree : Program :=
      ⟨[.define "x" (.number "1" default) default,
        .entryPoint [] [.ifThen (.symbol "x" default) inner default] default default], default⟩
    ∃ program found : Program, program.unspanned = tree.unspanned ∧
      program.Canonical ∧ program.Renders words ∧
      ofTokens (words ++ [.endMark default]) "f" = .ok found ∧
      found.unspanned = program.unspanned := by
  intro words inner tree
  obtain ⟨program, hread, hprogram⟩ : ∃ program, ofTokens words "f" = .ok program ∧
      program.unspanned = tree.unspanned := ⟨_, rfl, rfl⟩
  obtain ⟨hcanonical, hwords⟩ := (ofTokens_renderings "f").2 words program hread
  obtain ⟨found, hfound, hsame⟩ := (ofTokens_renderings "f").1 program words [.endMark default]
    hcanonical hwords (by rintro _ ⟨⟩; rfl)
  exact ⟨program, found, hprogram, hcanonical, hwords, hfound, hsame⟩

end Program

end Coroscript
