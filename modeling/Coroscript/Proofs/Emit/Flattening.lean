import Coroscript.Proofs.Emit.Weaving

namespace Coroscript

def Stmt.isEntryPoint : Stmt → Bool
  | .entryPoint _ _ _ _ => true
  | _ => false

namespace Emit

open Cpp Emitter

/-! A program is emitted with and without indentation, side by side. -/

/-- Both runs are in one state all the way, and fail alike. -/
abbrev InStep {α : Type} (results : α → α → Prop) (left right : Emitter α) : Prop :=
  Action.Relates Eq Eq results Eq left right

section Steps

variable {α : Type} {results : α → α → Prop} {run flatRun : Emitter α}

theorem inStep_self
    (hresults : ∀ {state after a}, run state = (.ok a, after) → results a a) :
    InStep results run run := by
  rintro state _ rfl
  refine ⟨?_, fun _ _ => rfl⟩
  cases hrun : run state with
  | mk result after =>
      cases result with
      | ok a => exact .ok (hresults hrun)
      | error error => exact .error rfl

theorem inStep_refl (run : Emitter α) : InStep Eq run run :=
  inStep_self fun _ => rfl

theorem inStep_inFrame (stop : Position) (hrun : InStep results run flatRun) :
    InStep results (inFrame stop run) (inFrame stop flatRun) := by
  apply (inStep_refl enter).bind
  intro _ _ _
  apply hrun.bind
  intro result flatResult hresult
  apply (inStep_refl (exit stop)).bind
  intro _ _ _
  exact .pure hresult

theorem inStep_withBody (body : Body) (hrun : InStep results run flatRun) :
    InStep (fun found flatFound => results found.1 flatFound.1 ∧ found.2 = flatFound.2)
      (withBody body run) (withBody body flatRun) := by
  rintro state _ rfl
  obtain ⟨hagree, hafter⟩ := hrun { state with body } { state with body } rfl
  unfold withBody
  revert hagree hafter
  generalize run { state with body } = ends
  generalize flatRun { state with body } = ends'
  obtain ⟨result, after⟩ := ends
  obtain ⟨result', after'⟩ := ends'
  intro hagree hafter
  cases hagree with
  | ok hresults =>
      obtain rfl := hafter _ rfl
      exact ⟨.ok ⟨hresults, rfl⟩, fun _ _ => rfl⟩
  | error herrors => exact ⟨.error herrors, fun _ herror => nomatch herror⟩

end Steps

/-! Statements. -/

section Statements

variable {name : String} {value : Expr} {words : List Token}

theorem piece_renders (hvalue : Stratified .logical value) (hwords : Renders value words)
    (hfits : ∀ word ∈ words, word.Fits) : Piece false (exprText value) (exprText value) :=
  piece_of_spells (hvalue.spells hwords) hfits

theorem exists_of_commas {α : Type} {renders : α → List Token → Prop} {items : List α}
    (hwords : RendersCommas renders items words) (hfits : ∀ word ∈ words, word.Fits) :
    ∀ item ∈ items, ∃ words, renders item words ∧ ∀ word ∈ words, word.Fits := by
  induction hwords with
  | last hitem => exact List.forall_mem_singleton.2 ⟨_, hitem, hfits⟩
  | cons hitem _ _ ih =>
      rw [List.forall_mem_append, List.forall_mem_cons] at hfits
      exact List.forall_mem_cons.2 ⟨⟨_, hitem, hfits.1⟩, ih hfits.2.2⟩

theorem exists_of_parens {α : Type} {renders : α → List Token → Prop} {items : List α}
    (hwords : RendersParens renders items words) (hfits : ∀ word ∈ words, word.Fits) :
    ∀ item ∈ items, ∃ words, renders item words ∧ ∀ word ∈ words, word.Fits := by
  cases hwords with
  | empty _ _ => exact fun _ hitem => absurd hitem List.not_mem_nil
  | items _ hcommas _ =>
      exact exists_of_commas hcommas fun word hword => hfits word (by simp [hword])

theorem piece_assignment (hwords : RendersAssignment name value words)
    (hvalue : Stratified .logical value) (hfits : ∀ word ∈ words, word.Fits) :
    Piece false (name ++ " = " ++ exprText value ++ ";")
      (name ++ " = " ++ exprText value ++ ";") := by
  cases hwords with
  | mk hword hname _ hrenders _ =>
      have hpiece := piece_renders hvalue hrenders fun word hword => hfits word (by simp [hword])
      have hisWord := isWord_of_fits (hfits _ List.mem_cons_self) (.inl hword)
      rw [hname] at hisWord
      intro awaited
      have hequals : Woven false .done awaited .ready awaited " = " " = " :=
        woven_phrase (by decide)
      exact (((woven_word hisWord).append hequals).append (hpiece awaited)).append woven_semicolon

theorem piece_declaration
    (hassign : Piece false (name ++ " = " ++ exprText value ++ ";")
      (name ++ " = " ++ exprText value ++ ";")) :
    Piece false ("auto " ++ name ++ " = " ++ exprText value ++ ";")
      ("auto " ++ name ++ " = " ++ exprText value ++ ";") := by
  intro awaited
  have hauto : Woven false .ready awaited .ready awaited "auto " "auto " :=
    woven_phrase (by decide)
  simpa only [String.append_assoc] using hauto.append (hassign awaited)

theorem piece_terminate {text : String} (hpiece : Piece false text text) :
    Piece false (terminate text) (terminate text) := by
  unfold terminate
  split
  · exact hpiece
  · exact fun awaited => (hpiece awaited).append woven_semicolon

theorem piece_return {text : String} (hpiece : Piece false text text) :
    Piece false ("return " ++ text ++ ";") ("return " ++ text ++ ";") := by
  intro awaited
  have hreturn : Woven false .ready awaited .ready awaited "return " "return " :=
    woven_phrase (by decide)
  exact (hreturn.append (hpiece awaited)).append woven_semicolon

theorem isWord_resumeLabel (index : Nat) : IsWord (resumeLabel index).toList := by
  rw [resumeLabel, String.toList_append]
  have hparts : stateField.toList.all (fun c => Lexeme.isWordPart c || c == '.') = true := by
    decide
  exact isWord_append ⟨by decide, List.all_eq_true.1 hparts⟩ (isWord_toString index)

theorem piece_yieldText {text : String} (hpiece : Piece false text text) (lowering : Lowering) :
    Piece false (lowering.yieldText text) (lowering.yieldText text) := by
  intro awaited
  have hcount : Woven false .ready awaited .ready awaited (stateField ++ "++;\nreturn ")
      (stateField ++ "++;\nreturn ") := woven_phrase (by decide)
  have hline : Woven false .done awaited .ready awaited ";\n" ";\n" := woven_phrase (by decide)
  exact ((((hcount.append (hpiece awaited)).append hline).append
    (woven_word (isWord_resumeLabel _))).append (woven_phrase (by decide)))

/-- Statements that no margin is put into. -/
theorem inStep_plain {tree : Stmt} (hflat : stmtBy [] tree = stmt tree)
    (hpiece : ∀ {state after text}, stmt tree state = (.ok text, after) → Piece false text text) :
    InStep (Piece false) (stmt tree) (stmtBy [] tree) := by
  rw [hflat]
  exact inStep_self hpiece

theorem inStep_expression (hvalue : Piece false (exprText value) (exprText value)) (span : Span) :
    InStep (Piece false) (stmt (.expression value span)) (stmtBy [] (.expression value span)) := by
  refine inStep_plain rfl fun hrun => ?_
  have htext := of_bind_expr hrun
  obtain ⟨rfl, -⟩ := Action.pure_eq_ok_iff.1 htext
  exact piece_terminate hvalue

theorem inStep_define (hassign : Piece false (name ++ " = " ++ exprText value ++ ";")
      (name ++ " = " ++ exprText value ++ ";")) (span : Span) :
    InStep (Piece false) (stmt (.define name value span))
      (stmtBy [] (.define name value span)) := by
  refine inStep_plain rfl fun hrun => ?_
  have hbranch := of_bind_expr hrun
  rw [get_bind] at hbranch
  split at hbranch
  · obtain ⟨rfl, -⟩ := Action.pure_eq_ok_iff.1 hbranch
    exact hassign
  · split at hbranch
    · exact absurd ⟨_, hbranch⟩ not_runs_fail
    · obtain ⟨_, _, rfl⟩ := of_bind_pure hbranch
      exact piece_declaration hassign

theorem inStep_returns {value? : Option Expr}
    (hvalue : ∀ value ∈ value?, Piece false (exprText value) (exprText value)) (span : Span) :
    InStep (Piece false) (stmt (.returns value? span)) (stmtBy [] (.returns value? span)) := by
  refine inStep_plain rfl fun hrun => ?_
  unfold stmt returns at hrun
  rw [get_bind] at hrun
  split at hrun
  · exact absurd ⟨_, hrun⟩ not_runs_fail
  · cases value? with
    | none =>
        obtain ⟨rfl, -⟩ := Action.pure_eq_ok_iff.1 hrun
        exact piece_phrase (by decide)
    | some value =>
        have htext := @of_bind_expr _ _ _ value _ _ hrun
        obtain ⟨rfl, -⟩ := Action.pure_eq_ok_iff.1 htext
        exact piece_return (hvalue value rfl)

theorem inStep_yields (hvalue : Piece false (exprText value) (exprText value)) (span : Span) :
    InStep (Piece false) (stmt (.yields value span)) (stmtBy [] (.yields value span)) := by
  refine inStep_plain rfl fun {state after text} hrun => ?_
  rw [stmt, yields, get_bind] at hrun
  cases hbody : state.body with
  | topLevel | function =>
      simp only [hbody] at hrun
      exact absurd ⟨_, hrun⟩ not_runs_fail
  | coroutine lowering =>
      simp only [hbody] at hrun
      obtain ⟨_, _, rfl⟩ := of_bind_pure (of_bind_expr hrun)
      exact piece_yieldText hvalue lowering

theorem inStep_print {arguments : List Expr}
    (harguments : ∀ argument ∈ arguments, Piece false (exprText argument) (exprText argument))
    (span : Span) :
    InStep (Piece false) (stmt (.print arguments span)) (stmtBy [] (.print arguments span)) := by
  refine inStep_plain rfl fun hrun => ?_
  obtain ⟨texts, hread, rfl⟩ := of_bind_pure hrun
  obtain ⟨htexts, _⟩ := Prod.mk.inj hread
  rw [streamOperands_eq_ok htexts]
  intro awaited
  have hout : Woven false .ready awaited .done awaited "std::cout" "std::cout" :=
    woven_phrase (by decide)
  have hshift : Woven false .done awaited .ready awaited " << " " << " := woven_phrase (by decide)
  have hstreamed : ∀ text ∈ arguments.map streamText, Piece false text text := by
    intro text htext
    obtain ⟨argument, hargument, rfl⟩ := List.mem_map.1 htext
    exact (harguments argument hargument).operand argument shiftPrecedence .left
  exact (woven_join hout hshift (List.forall₂_same.2 hstreamed)).append (woven_phrase (by decide))

theorem inStep_branch {body : Stmt} (hbody : InStep (Piece false) (stmt body) (stmtBy [] body)) :
    InStep (Piece false) (branch body (stmt body)) (branchBy [] body (stmtBy [] body)) := by
  have hframe : InStep (Piece false)
      (inFrame body.span.stop (stmt body) >>= fun text => pure (braced [text]))
      (inFrame body.span.stop (stmtBy [] body) >>= fun text => pure (bracedBy [] [text])) := by
    apply (inStep_inFrame body.span.stop hbody).bind
    intro text flat hpiece
    exact .pure (piece_braced (.cons hpiece .nil))
  cases body with
  | block body span => exact hbody
  | expression | define | ifThen | ifElse | returns | yields | print | forwardFunction
  | function | forwardCoroutine | coroutine | entryPoint => exact hframe

theorem piece_ifThen {test thenText thenFlat : String} (htest : Piece false test test)
    (hthen : Piece false thenText thenFlat) :
    Piece false ("if " ++ inParens test ++ " " ++ thenText)
      ("if " ++ inParens test ++ " " ++ thenFlat) := by
  intro awaited
  have hif : Woven false .ready awaited .ready awaited "if " "if " := woven_phrase (by decide)
  exact ((hif.append htest.shut).append woven_space).append (hthen awaited)

theorem inStep_test {value : Expr} (hvalue : Piece false (exprText value) (exprText value)) :
    InStep (fun text flat => text = flat ∧ Piece false text text)
      (read fun names => expr names value) (read fun names => expr names value) := by
  refine inStep_self fun hrun => ?_
  obtain ⟨htext, -⟩ := Prod.mk.inj hrun
  rw [((expr_eq_ok_iff value).1 htext).2]
  exact ⟨rfl, hvalue⟩

end Statements

mutual

theorem inStep_stmt : ∀ {tree : Stmt} {words : List Token}, RendersStmt tree words →
    tree.Canonical → (∀ word ∈ words, word.Fits) →
      InStep (Piece false) (stmt tree) (stmtBy [] tree)
  | _, _, .block span hblock, hstmt, hfits => by
      rw [Stmt.Canonical] at hstmt
      rw [stmt, stmtBy]
      apply (inStep_inFrame span.stop (inStep_block hblock hstmt hfits)).bind
      intro texts flats hpieces
      exact .pure (piece_braced hpieces)
  | _, _, .expression span hvalue _, hstmt, hfits => by
      rw [Stmt.Canonical] at hstmt
      exact inStep_expression
        (piece_renders hstmt hvalue fun word hword => hfits word (by simp [hword])) span
  | _, _, .assign span hassign, hstmt, hfits => by
      rw [Stmt.Canonical] at hstmt
      exact inStep_define (piece_assignment hassign hstmt hfits) span
  | _, _, .define span _ hassign, hstmt, hfits => by
      rw [Stmt.Canonical] at hstmt
      exact inStep_define
        (piece_assignment hassign hstmt fun word hword => hfits word (by simp [hword])) span
  | _, _, .ifThen _ _ _ hcondition _ hthen, hstmt, hfits => by
      rw [Stmt.Canonical] at hstmt
      have htest := piece_renders hstmt.1 hcondition fun word hword => hfits word (by simp [hword])
      have hbody := inStep_stmt hthen hstmt.2 fun word hword => hfits word (by simp [hword])
      rw [stmt, stmtBy]
      apply (inStep_test htest).bind
      rintro test _ ⟨rfl, htest⟩
      apply (inStep_branch hbody).bind
      intro thenText thenFlat hthen
      exact .pure (piece_ifThen htest hthen)
  | _, _, .ifElse _ _ _ hcondition _ hthen _ helse, hstmt, hfits => by
      rw [Stmt.Canonical] at hstmt
      have htest := piece_renders hstmt.1 hcondition fun word hword => hfits word (by simp [hword])
      have hbody := inStep_stmt hthen hstmt.2.1 fun word hword => hfits word (by simp [hword])
      have hother := inStep_stmt helse hstmt.2.2.1 fun word hword => hfits word (by simp [hword])
      rw [stmt, stmtBy]
      apply (inStep_test htest).bind
      rintro test _ ⟨rfl, htest⟩
      apply (inStep_branch hbody).bind
      intro thenText thenFlat hthen
      apply (inStep_branch hother).bind
      intro elseText elseFlat helse
      refine .pure fun awaited => ?_
      have helseWord : Woven false .done awaited .ready awaited " else " " else " :=
        woven_phrase (by decide)
      exact ((piece_ifThen htest hthen awaited).append helseWord).append (helse awaited)
  | _, _, .returnsNothing span _ _, _, _ => inStep_returns (by simp) span
  | _, _, .returns span _ hvalue _, hstmt, hfits => by
      rw [Stmt.Canonical] at hstmt
      have hpiece := piece_renders (hstmt _ rfl) hvalue fun word hword =>
        hfits word (by simp [hword])
      refine inStep_returns ?_ span
      rintro value ⟨⟩
      exact hpiece
  | _, _, .yields span _ hvalue _, hstmt, hfits => by
      rw [Stmt.Canonical] at hstmt
      exact inStep_yields
        (piece_renders hstmt hvalue fun word hword => hfits word (by simp [hword])) span
  | _, _, .print span _ harguments _, hstmt, hfits => by
      rw [Stmt.Canonical] at hstmt
      refine inStep_print (fun argument hargument => ?_) span
      obtain ⟨words, hrenders, hwords⟩ := exists_of_parens harguments
        (fun word hword => hfits word (by simp [hword])) argument hargument
      exact piece_renders (hstmt argument hargument) hrenders hwords

theorem inStep_block : ∀ {body : List Stmt} {words : List Token}, RendersBlock body words →
    Stmt.CanonicalAll body → (∀ word ∈ words, word.Fits) →
      InStep (List.Forall₂ (Piece false)) (stmts body) (stmtsBy [] body)
  | _, _, .braces _ hbody _, hstmts, hfits =>
      inStep_body hbody hstmts fun word hword => hfits word (by simp [hword])

theorem inStep_body : ∀ {body : List Stmt} {words : List Token}, RendersBody body words →
    Stmt.CanonicalAll body → (∀ word ∈ words, word.Fits) →
      InStep (List.Forall₂ (Piece false)) (stmts body) (stmtsBy [] body)
  | _, _, .nil, _, _ => by
      rw [stmts, stmtsBy]
      exact .pure .nil
  | _, _, .cons hfirst hothers, hstmts, hfits => by
      rw [Stmt.CanonicalAll] at hstmts
      rw [List.forall_mem_append] at hfits
      rw [stmts, stmtsBy]
      apply (inStep_stmt hfirst hstmts.1 hfits.1).bind
      intro text flat hpiece
      apply (inStep_body hothers hstmts.2 hfits.2).bind
      intro texts flats hpieces
      exact .pure (.cons hpiece hpieces)

end

/-! Definitions. -/

section Definitions

variable {name : String} {names : List String} {texts flats : List String} {awaited : List Char}

theorem piece_typedParameters (hnames : ∀ name ∈ names, IsWord name.toList) :
    ∀ text ∈ typedParameters names, Piece false text text := by
  intro text htext awaited
  obtain ⟨⟨name, index⟩, hname, rfl⟩ := List.mem_map.1 htext
  exact (woven_typeName index).append
    (woven_word (hnames name (List.fst_mem_of_mem_zipIdx hname)))

theorem isWord_typeName (index : Nat) : IsWord (typeName index).toList := by
  rw [typeName, String.toList_append]
  exact isWord_append ⟨by decide, List.forall_mem_singleton.2 (by decide)⟩ (isWord_toString index)

theorem piece_template {text flat : String} (hpiece : Piece false text flat) (arity : Nat) :
    Piece false (template arity text) (template arity flat) := by
  unfold template
  split
  · exact hpiece
  rename_i harity
  intro awaited
  have htypes : ∀ text ∈ (List.range arity).map (fun index => "class " ++ typeName index),
      Piece false text text := by
    intro text htext awaited
    obtain ⟨index, -, rfl⟩ := List.mem_map.1 htext
    exact woven_class.append (woven_word (isWord_typeName index))
  have hlist := piece_commas (List.forall₂_same.2 htypes) (by simpa using harity) awaited
  have hopened : Woven false .ready awaited .ready awaited "template <" "template <" :=
    woven_phrase (by decide)
  have hclosed : Woven false .done awaited .done awaited ">" ">" := woven_phrase (by decide)
  exact (((hopened.append hlist).append hclosed).append woven_newline).append (hpiece awaited)

theorem woven_signature (hname : IsWord name.toList) (hnames : ∀ name ∈ names, IsWord name.toList) :
    Woven false .ready awaited .shut awaited (FunctionHead.generic name names).signature
      (FunctionHead.generic name names).signature := by
  have hauto : Woven false .ready awaited .ready awaited ("auto" ++ " ") ("auto" ++ " ") :=
    woven_phrase (by decide)
  exact woven_list ((hauto.append (woven_word hname)).append woven_callParen)
    (List.forall₂_same.2 (piece_typedParameters hnames))

theorem piece_exhausted : Piece false exhausted exhausted :=
  piece_phrase (by decide)

theorem piece_dispatch (count : Nat) : Piece false (dispatch count) (dispatchBy [] count) := by
  have hcases : ∀ text ∈ dispatchCases count, Piece false text text := by
    intro text htext
    rw [dispatchCases, List.mem_append, List.mem_append, List.mem_singleton,
      List.mem_singleton] at htext
    rcases htext with (rfl | htext) | rfl
    · exact piece_phrase (by decide)
    · obtain ⟨index, -, rfl⟩ := List.mem_map.1 htext
      intro awaited
      have hcase : Woven false .ready awaited .ready awaited "case " "case " :=
        woven_phrase (by decide)
      have hgoto : Woven false .done awaited .ready awaited ": goto " ": goto " :=
        woven_phrase (by decide)
      exact (((hcase.append (woven_word (isWord_toString _))).append hgoto).append
        (woven_word (isWord_resumeLabel index))).append woven_semicolon
    · exact piece_phrase (by decide)
  intro awaited
  have hswitch : Woven false .ready awaited .ready awaited ("switch (" ++ stateField ++ ") ")
      ("switch (" ++ stateField ++ ") ") := woven_phrase (by decide)
  exact hswitch.append (piece_braced (List.forall₂_same.2 hcases) awaited)

theorem piece_constructor (hname : IsWord name.toList)
    (hnames : ∀ name ∈ names, IsWord name.toList) (lowering : Lowering) :
    Piece false (Resumable.mk name names lowering texts).constructor
      (Resumable.mk name names lowering texts).constructor := by
  intro awaited
  unfold Resumable.constructor
  split
  · exact (woven_word hname).append (woven_phrase (by decide))
  · rename_i hparameters
    have hclosed : Woven false .done (')' :: awaited) .ready awaited ") : " ") : " :=
      woven_closing (by decide)
    have hinitials : ∀ text ∈ names.map (fun name => name ++ "(" ++ name ++ ")"),
        Piece false text text := by
      intro text htext awaited
      obtain ⟨name, hname, rfl⟩ := List.mem_map.1 htext
      have hword := hnames name hname
      exact (((woven_word hword).append woven_callParen).append (woven_word hword)).append
        (woven_closing (by decide))
    have htyped := piece_commas (List.forall₂_same.2 (piece_typedParameters hnames))
      (by simpa [typedParameters] using hparameters)
    have hlist := piece_commas (List.forall₂_same.2 hinitials) (by simpa using hparameters)
    exact (((((woven_word hname).append woven_callParen).append (htyped _)).append hclosed).append
      (hlist awaited)).append (woven_phrase (by decide))

theorem piece_nextMethod (hbody : List.Forall₂ (Piece false) texts flats) (lowering : Lowering) :
    Piece false (Resumable.mk name names lowering texts).nextMethod
      ((Resumable.mk name names lowering flats).nextMethodBy []) := by
  intro awaited
  have hnext : Woven false .ready awaited .ready awaited "auto next() " "auto next() " :=
    woven_phrase (by decide)
  have hlabel : Piece false (startLabel ++ ":;") (startLabel ++ ":;") := piece_phrase (by decide)
  have hlines := List.rel_append
    (.cons (piece_dispatch lowering.yieldCount) (.cons hlabel hbody)) (.cons piece_exhausted .nil)
  exact hnext.append (piece_braced hlines awaited)

theorem piece_render (hname : IsWord name.toList) (hnames : ∀ name ∈ names, IsWord name.toList)
    (hbody : List.Forall₂ (Piece false) texts flats) (lowering : Lowering) :
    Piece false (Resumable.mk name names lowering texts).render
      ((Resumable.mk name names lowering flats).renderBy []) := by
  have hfields : ∀ text ∈ (Resumable.mk name names lowering texts).fields,
      Piece false text text := by
    refine List.forall_mem_cons.2 ⟨piece_phrase (by decide), fun text htext awaited => ?_⟩
    obtain ⟨parameter, hparameter, rfl⟩ := List.mem_map.1 htext
    exact (piece_typedParameters hnames parameter hparameter awaited).append woven_semicolon
  have hfieldLines := piece_lines (List.forall₂_same.2 hfields) (List.cons_ne_nil _ _)
  have hconstructor := @piece_constructor name names texts hname hnames lowering
  refine piece_template (fun awaited => ?_) _
  have hmethods : Piece false
      ((Resumable.mk name names lowering texts).constructor ++ "\n" ++
        (Resumable.mk name names lowering texts).nextMethod)
      ((Resumable.mk name names lowering flats).constructor ++ "\n" ++
        (Resumable.mk name names lowering flats).nextMethodBy []) := by
    intro awaited
    exact ((hconstructor awaited).append woven_newline).append
      (piece_nextMethod hbody lowering awaited)
  have hopened : Woven false .done awaited .line ('\x7d' :: awaited) " \x7b\n" " \x7b\n" :=
    woven_opening (by decide)
  have hpublic : Woven false .done ('\x7d' :: awaited) .line ('\x7d' :: awaited) "\npublic:\n"
      "\npublic:\n" := woven_phrase (by decide)
  exact (((((woven_class.append (woven_word hname)).append hopened).append
    (hfieldLines _).indent).append hpublic).append (hmethods _).indent).append
      (woven_closing (by decide))

end Definitions

/-! Items. The entry point is the one item with a head that no piece has. -/

def entryHead : String :=
  "int main()"

inductive ItemText : Stmt → String → String → Prop
  | entryPoint {tree : Stmt} {text flat : String} (htree : tree.isEntryPoint = true)
      (hbody : Piece false text flat) :
      ItemText tree (entryHead ++ " " ++ text) (entryHead ++ " " ++ flat)
  | other {tree : Stmt} {text flat : String} (htree : tree.isEntryPoint = false)
      (htext : Piece false text flat) : ItemText tree text flat

inductive ItemTexts : List Stmt → List String → List String → Prop
  | nil : ItemTexts [] [] []
  | cons {tree : Stmt} {trees : List Stmt} {text flat : String} {texts flats : List String}
      (hitem : ItemText tree text flat) (hitems : ItemTexts trees texts flats) :
      ItemTexts (tree :: trees) (text :: texts) (flat :: flats)

section Items

variable {tree : Stmt} {body : List Stmt} {words : List Token}

theorem isWord_parameters {parameters : List Parameter}
    (hwords : RendersParens RendersParameter parameters words) (hfits : ∀ word ∈ words, word.Fits) :
    ∀ name ∈ parameterNames parameters, IsWord name.toList := by
  intro name hname
  obtain ⟨parameter, hparameter, rfl⟩ := List.mem_map.1 hname
  obtain ⟨_, ⟨_, hword⟩, hfits⟩ := exists_of_parens hwords hfits parameter hparameter
  exact isWord_of_fits (hfits _ List.mem_cons_self) (.inl hword)

theorem inStep_contents (hbody : RendersBlock body words) (hstmts : Stmt.CanonicalAll body)
    (hfits : ∀ word ∈ words, word.Fits) (span : Span) :
    InStep (List.Forall₂ (Piece false)) (blockContents body span) (blockContentsBy [] body span) :=
  inStep_inFrame span.stop (inStep_block hbody hstmts hfits)

theorem inStep_braces (hbody : RendersBlock body words) (hstmts : Stmt.CanonicalAll body)
    (hfits : ∀ word ∈ words, word.Fits) (span : Span) :
    InStep (Piece false) (block body span) (blockBy [] body span) := by
  apply (inStep_contents hbody hstmts hfits span).bind
  intro texts flats hpieces
  exact .pure (piece_braced hpieces)

theorem inStep_function {name : String} {parameters : List Parameter}
    (hname : IsWord name.toList) (hnames : ∀ name ∈ parameterNames parameters, IsWord name.toList)
    {bodySpan : Span}
    (hbody : InStep (Piece false) (block body bodySpan) (blockBy [] body bodySpan)) (span : Span) :
    InStep (Piece false) (function name parameters body bodySpan span)
      (functionBy [] name parameters body bodySpan span) := by
  apply (inStep_refl _).bind
  intro _ _ _
  apply (inStep_refl _).bind
  intro _ _ _
  apply (inStep_withBody .function hbody).bind
  rintro ⟨text, _⟩ ⟨flat, _⟩ ⟨hpiece, -⟩
  apply (inStep_refl _).bind
  intro _ _ _
  refine .pure (piece_template (fun awaited => ?_) _)
  exact ((woven_signature hname hnames).append woven_space).append (hpiece awaited)

theorem inStep_coroutine {name : String} {parameters : List Parameter}
    (hname : IsWord name.toList) (hnames : ∀ name ∈ parameterNames parameters, IsWord name.toList)
    {bodySpan : Span} (hbody : InStep (List.Forall₂ (Piece false)) (blockContents body bodySpan)
      (blockContentsBy [] body bodySpan)) (span : Span) :
    InStep (Piece false) (coroutine name parameters body bodySpan span)
      (coroutineBy [] name parameters body bodySpan span) := by
  apply (inStep_refl _).bind
  intro _ _ _
  apply (inStep_refl Action.get).bind
  rintro state _ rfl
  cases hhidden : hiddenByState? state.names parameters span with
  | some position => exact .fail rfl
  | none =>
      apply (inStep_refl _).bind
      intro _ _ _
      apply (inStep_withBody _ hbody).bind
      rintro ⟨texts, finished⟩ ⟨flats, _⟩ ⟨hpieces, rfl⟩
      apply (inStep_refl _).bind
      intro _ _ _
      exact .pure (piece_render hname hnames hpieces _)

theorem inStep_entryPoint {bodySpan : Span}
    (hbody : InStep (Piece false) (block body bodySpan) (blockBy [] body bodySpan))
    (parameters : List Parameter) (span : Span) :
    InStep (ItemText (.entryPoint parameters body bodySpan span)) (entryPoint body bodySpan span)
      (entryPointBy [] body bodySpan span) := by
  have hhead (text : String) :
      FunctionHead.entryPoint.definition text = entryHead ++ " " ++ text := by
    have hsignature : FunctionHead.entryPoint.signature = entryHead := by decide
    rw [← hsignature]
    rfl
  apply (inStep_refl _).bind
  intro _ _ _
  apply (inStep_withBody .function hbody).bind
  rintro ⟨text, _⟩ ⟨flat, _⟩ ⟨hpiece, -⟩
  simp only [hhead]
  exact .pure (.entryPoint rfl hpiece)

theorem inStep_item (hwords : RendersItem tree words) (hitem : tree.CanonicalItem)
    (hfits : ∀ word ∈ words, word.Fits) : InStep (ItemText tree) (item tree) (itemBy [] tree) := by
  cases hwords with
  | define hdefine =>
      refine inStep_self fun hrun => .other rfl ?_
      obtain ⟨_, _, rfl⟩ := of_bind_pure (of_bind_expr hrun)
      cases hdefine with
      | assign _ hassign => exact piece_declaration (piece_assignment hassign hitem hfits)
      | define _ _ hassign =>
          exact piece_declaration
            (piece_assignment hassign hitem fun word hword => hfits word (by simp [hword]))
  | forwardFunction _ _ hname hparameters _ =>
      have hword := isWord_of_fits (hfits _ (by simp)) (.inl hname)
      have hnames := isWord_parameters hparameters fun word hword => hfits word (by simp [hword])
      refine inStep_self fun hrun => .other rfl ?_
      obtain ⟨_, _, rfl⟩ := of_bind_pure hrun
      exact piece_template
        (fun _ => (woven_signature hword hnames).ended.append woven_semicolon) _
  | function bodySpan span _ hname hparameters hbody =>
      have hword := isWord_of_fits (hfits _ (by simp)) (.inl hname)
      have hnames := isWord_parameters hparameters fun word hword => hfits word (by simp [hword])
      have hbraces := inStep_braces hbody hitem.2 (fun word hword => hfits word (by simp [hword]))
        bodySpan
      exact (inStep_function hword hnames hbraces span).mono fun _ _ hpiece => .other rfl hpiece
  | entryPoint bodySpan span _ _ _ _ hbody =>
      have hbraces := inStep_braces hbody hitem (fun word hword => hfits word (by simp [hword]))
        bodySpan
      exact inStep_entryPoint hbraces _ span
  | forwardCoroutine _ _ _ hname _ _ =>
      have hword := isWord_of_fits (hfits _ (by simp)) (.inl hname)
      refine inStep_self fun hrun => .other rfl ?_
      obtain ⟨_, _, rfl⟩ := of_bind_pure hrun
      exact piece_template
        (fun _ => (woven_class.append (woven_word hword)).append woven_semicolon) _
  | coroutine bodySpan span _ _ hname hparameters hbody =>
      have hword := isWord_of_fits (hfits _ (by simp)) (.inl hname)
      have hnames := isWord_parameters hparameters fun word hword => hfits word (by simp [hword])
      have hcontents := inStep_contents hbody hitem
        (fun word hword => hfits word (by simp [hword])) bodySpan
      exact (inStep_coroutine hword hnames hcontents span).mono fun _ _ hpiece => .other rfl hpiece

theorem inStep_items {trees : List Stmt} (hwords : RendersItems trees words)
    (hitems : ∀ item ∈ trees, item.CanonicalItem) (hfits : ∀ word ∈ words, word.Fits) :
    InStep (ItemTexts trees) (items trees) (itemsBy [] trees) := by
  induction hwords with
  | nil => exact .pure .nil
  | cons hfirst _ ih =>
      rw [List.forall_mem_cons] at hitems
      rw [List.forall_mem_append] at hfits
      apply (inStep_item hfirst hitems.1 hfits.1).bind
      intro text flat htext
      apply (ih hitems.2 hfits.2).bind
      intro texts flats htexts
      exact .pure (.cons htext htexts)

/-- The text of a unit with the given texts of items. -/
def unitText (texts : List String) : String :=
  "\n\n".intercalate (headers :: texts) ++ "\n"

theorem inStep_unit {program : Program} (hwords : program.Renders words)
    (hitems : program.Canonical) (hfits : ∀ word ∈ words, word.Fits) :
    InStep (fun code flat => ∃ texts flats, ItemTexts program.items texts flats ∧
        code = unitText texts ∧ flat = unitText flats)
      (unit program) (unitBy [] program) := by
  apply (inStep_items hwords hitems hfits).bind
  intro texts flats htexts
  apply (inStep_refl Action.get).bind
  rintro state _ rfl
  split
  · exact .pure ⟨texts, flats, htexts, rfl, rfl⟩
  · exact .fail rfl

end Items

end Emit

end Coroscript
