import Coroscript.Proofs.Compile.Words
import Coroscript.Proofs.Emit.Strings

namespace Coroscript

/-! The string literals of an emitted program are the strings of its source, in order. -/

namespace Emit

open Cpp Token

/-! Statements. -/

theorem digits_plain (n : Nat) : '"' ∉ Nat.toDigits 10 n := by
  intro hquote
  exact absurd (Nat.isDigit_of_mem_toDigits (by decide) (by decide) hquote) (by decide)

theorem resumeLabel_plain (index : Nat) : '"' ∉ (resumeLabel index).toList := by
  simp [resumeLabel, stateField, digits_plain]

theorem Quotes.terminate {text : String} {origins : List Token} (htext : Quotes text origins) :
    Quotes (Cpp.terminate text) origins := by
  unfold Cpp.terminate
  split
  · exact htext
  · exact htext.ahead (by simp)

theorem quotes_renders {value : Expr} {words : List Token} (hvalue : Stratified .logical value)
    (hwords : Renders value words) (hfits : ∀ word ∈ words, word.Fits) :
    Quotes (exprText value) (strings words) :=
  quotes_of_spells (hvalue.spells hwords) hfits

theorem quotesAll_commas {α : Type} {renders : α → List Token → Prop} {text : α → String}
    {items : List α} {words : List Token} (hwords : RendersCommas renders items words)
    (hfits : ∀ word ∈ words, word.Fits)
    (hitems : ∀ item ∈ items, ∀ words, renders item words → (∀ word ∈ words, word.Fits) →
      Quotes (text item) (strings words)) :
    QuotesAll (items.map text) (strings words) := by
  induction hwords with
  | last hitem => exact (hitems _ List.mem_cons_self _ hitem hfits).single
  | @cons item items words more comma hitem hcomma _ ih =>
      rw [List.forall_mem_cons] at hitems
      rw [List.forall_mem_append, List.forall_mem_cons] at hfits
      rw [strings_append, strings_cons hcomma (by decide), List.map_cons]
      exact .cons (hitems.1 _ hitem hfits.1) (ih hfits.2.2 hitems.2)

theorem quotesAll_parens {α : Type} {renders : α → List Token → Prop} {text : α → String}
    {items : List α} {words : List Token} (hwords : RendersParens renders items words)
    (hfits : ∀ word ∈ words, word.Fits)
    (hitems : ∀ item ∈ items, ∀ words, renders item words → (∀ word ∈ words, word.Fits) →
      Quotes (text item) (strings words)) :
    QuotesAll (items.map text) (strings words) := by
  cases hwords with
  | empty hopening hclosing =>
      rw [strings_cons hopening (by decide), strings_single hclosing (by decide)]
      exact .nil
  | items hopening hcommas hclosing =>
      rw [strings_cons hopening (by decide), strings_concat hclosing (by decide)]
      exact quotesAll_commas hcommas (fun word hword => hfits word (by simp [hword])) hitems

theorem quotes_assignment {name : String} {value : Expr} {words : List Token}
    (hwords : RendersAssignment name value words) (hvalue : Stratified .logical value)
    (hfits : ∀ word ∈ words, word.Fits) :
    Quotes (exprText value) (strings words) ∧ '"' ∉ name.toList := by
  cases hwords with
  | mk hword hname hequals hrenders hsemicolon =>
      have htext := quotes_renders hvalue hrenders fun word hword => hfits word (by simp [hword])
      refine ⟨?_, hname ▸ plain_of_fits (hfits _ List.mem_cons_self) (.inl hword)⟩
      rwa [strings_cons hword (by decide), strings_cons hequals (by decide),
        strings_concat hsemicolon (by decide)]

theorem Quotes.contents {statement : Statement} {origins : List Token}
    (htext : Quotes statement.text origins) :
    Quotes (Cpp.braced (Statement.texts statement.contents)) origins := by
  cases statement with
  | block body =>
      rw [Statement.text] at htext
      exact htext
  | _ => exact htext.single.braced

theorem quotes_define {name : String} {value : Expr} {span : Span} {origins : List Token}
    (htext : Quotes (exprText value) origins) (hname : '"' ∉ name.toList) (visible : List String)
    (index : Nat) : Quotes ((Stmt.define name value span).image visible index).text origins := by
  rw [Stmt.image]
  split
  · rw [Statement.text]
    exact (htext.behind (by simpa using hname)).ahead (by simp)
  · rw [Statement.text]
    exact (htext.behind (by simpa using hname)).ahead (by simp)

theorem quotes_yields {value : Expr} {origins : List Token}
    (htext : Quotes (exprText value) origins) (index : Nat) :
    Quotes (Statement.suspend index value.emitted).text origins := by
  rw [Statement.text]
  refine (((htext.behind ?_).ahead ?_).ahead (resumeLabel_plain index)).ahead (by simp)
  · simp [stateField]
  · simp

theorem quotes_print {arguments : List Expr} {origins : List Token}
    (htexts : QuotesAll (arguments.map streamText) origins) :
    Quotes (Statement.print (arguments.map Expr.streamed)).text origins := by
  have hjoined : Quotes (String.join ((arguments.map streamText).map (" << " ++ ·))) origins :=
    htexts.join (by simp)
  have hown : Quotes "\"\\n\"" [] := quotes_own List.mem_cons_self rfl
  have hline : Quotes " << \"\\n\";" [] := (hown.behind (by simp : '"' ∉ " << ".toList)).ahead
    (by simp : '"' ∉ ";".toList)
  rw [List.map_map] at hjoined
  have hall := (hjoined.behind (by simp : '"' ∉ "std::cout".toList)).append hline
  rw [List.append_nil] at hall
  rw [Statement.text, List.map_map]
  exact hall

mutual

theorem quotes_stmt : ∀ {tree : Stmt} {words : List Token}, RendersStmt tree words →
    tree.Canonical → (∀ word ∈ words, word.Fits) → ∀ (visible : List String) (index : Nat),
      Quotes (tree.image visible index).text (strings words)
  | _, _, .block _ hblock, hstmt, hfits, visible, index => by
      rw [Stmt.Canonical] at hstmt
      rw [Stmt.image, Statement.text]
      exact (quotes_block hblock hstmt hfits visible index).braced
  | _, _, .expression _ hvalue hsemicolon, hstmt, hfits, visible, index => by
      rw [Stmt.Canonical] at hstmt
      have htext := quotes_renders hstmt hvalue fun word hword => hfits word (by simp [hword])
      rw [strings_concat hsemicolon (by decide), Stmt.image, Statement.text]
      exact htext.terminate
  | _, _, .assign _ hassign, hstmt, hfits, visible, index => by
      rw [Stmt.Canonical] at hstmt
      obtain ⟨htext, hname⟩ := quotes_assignment hassign hstmt hfits
      exact quotes_define htext hname visible index
  | _, _, .define _ hkeyword hassign, hstmt, hfits, visible, index => by
      rw [Stmt.Canonical] at hstmt
      obtain ⟨htext, hname⟩ := quotes_assignment hassign hstmt fun word hword =>
        hfits word (by simp [hword])
      rw [strings_cons hkeyword (by decide)]
      exact quotes_define htext hname visible index
  | _, _, .ifThen _ hkeyword hopening hcondition hclosing hthen, hstmt, hfits, visible, index => by
      rw [Stmt.Canonical] at hstmt
      have htest := quotes_renders hstmt.1 hcondition fun word hword => hfits word (by simp [hword])
      have hbody := quotes_stmt hthen hstmt.2 (fun word hword => hfits word (by simp [hword]))
        visible index
      rw [strings_cons hkeyword (by decide), strings_cons hopening (by decide), strings_append,
        strings_cons hclosing (by decide), Stmt.image, Statement.text]
      exact ((htest.inParens.behind (by simp)).ahead (by simp)).append hbody.contents
  | _, _, .ifElse _ hkeyword hopening hcondition hclosing hthen hotherwise helse, hstmt, hfits,
      visible, index => by
      rw [Stmt.Canonical] at hstmt
      have htest := quotes_renders hstmt.1 hcondition fun word hword => hfits word (by simp [hword])
      have hbody := quotes_stmt hthen hstmt.2.1 (fun word hword => hfits word (by simp [hword]))
        visible index
      have hother := quotes_stmt helse hstmt.2.2.1
        (fun word hword => hfits word (by simp [hword])) visible
      rw [strings_cons hkeyword (by decide), strings_cons hopening (by decide), strings_append,
        strings_cons hclosing (by decide), strings_append, strings_cons hotherwise (by decide),
        ← List.append_assoc, Stmt.image, Statement.text]
      exact ((((htest.inParens.behind (by simp)).ahead (by simp)).append hbody.contents).ahead
        (by simp)).append (hother _).contents
  | _, _, .returnsNothing _ hkeyword hsemicolon, _, _, visible, index => by
      rw [strings_cons hkeyword (by decide), strings_single hsemicolon (by decide), Stmt.image]
      exact quotes_plain (by simp [Statement.text])
  | _, _, .returns _ hkeyword hvalue hsemicolon, hstmt, hfits, visible, index => by
      rw [Stmt.Canonical] at hstmt
      have htext := quotes_renders (hstmt _ rfl) hvalue fun word hword =>
        hfits word (by simp [hword])
      rw [strings_cons hkeyword (by decide), strings_concat hsemicolon (by decide), Stmt.image,
        Option.map_some, Statement.text]
      exact (htext.behind (by simp)).ahead (by simp)
  | _, _, .yields _ hkeyword hvalue hsemicolon, hstmt, hfits, visible, index => by
      rw [Stmt.Canonical] at hstmt
      have htext := quotes_renders hstmt hvalue fun word hword => hfits word (by simp [hword])
      rw [strings_cons hkeyword (by decide), strings_concat hsemicolon (by decide), Stmt.image]
      exact quotes_yields htext index
  | _, _, .print _ hkeyword harguments hsemicolon, hstmt, hfits, visible, index => by
      rw [Stmt.Canonical] at hstmt
      have htexts := quotesAll_parens harguments (fun word hword => hfits word (by simp [hword]))
        fun argument hargument _ hrenders hfits =>
          (quotes_renders (hstmt argument hargument) hrenders hfits).operand argument
            shiftPrecedence .left
      rw [strings_cons hkeyword (by decide), strings_concat hsemicolon (by decide), Stmt.image]
      exact quotes_print htexts

theorem quotes_block : ∀ {body : List Stmt} {words : List Token}, RendersBlock body words →
    Stmt.CanonicalAll body → (∀ word ∈ words, word.Fits) → ∀ (visible : List String) (index : Nat),
      QuotesAll (Statement.texts (Stmt.imageAll visible index body)) (strings words)
  | _, _, .braces hopening hbody hclosing, hstmts, hfits, visible, index => by
      rw [strings_cons hopening (by decide), strings_concat hclosing (by decide)]
      exact quotes_body hbody hstmts (fun word hword => hfits word (by simp [hword])) visible index

theorem quotes_body : ∀ {body : List Stmt} {words : List Token}, RendersBody body words →
    Stmt.CanonicalAll body → (∀ word ∈ words, word.Fits) → ∀ (visible : List String) (index : Nat),
      QuotesAll (Statement.texts (Stmt.imageAll visible index body)) (strings words)
  | _, _, .nil, _, _, _, _ => .nil
  | _, _, .cons hfirst hothers, hstmts, hfits, visible, index => by
      rw [Stmt.CanonicalAll] at hstmts
      rw [List.forall_mem_append] at hfits
      rw [strings_append, Stmt.imageAll, Statement.texts]
      exact .cons (quotes_stmt hfirst hstmts.1 hfits.1 visible index)
        (quotes_body hothers hstmts.2 hfits.2 _ _)

end

/-! Definitions. -/

theorem quotesAll_plain {texts : List String} (htexts : ∀ text ∈ texts, '"' ∉ text.toList) :
    QuotesAll texts [] := by
  induction texts with
  | nil => exact .nil
  | cons text texts ih =>
      rw [List.forall_mem_cons] at htexts
      exact .cons (quotes_plain htexts.1) (ih htexts.2)

section Definitions

variable {names : List String} {name text : String} {texts : List String} {origins : List Token}

theorem typedParameters_plain (hnames : ∀ name ∈ names, '"' ∉ name.toList) :
    ∀ text ∈ typedParameters names, '"' ∉ text.toList := by
  intro text htext
  obtain ⟨⟨name, index⟩, hname, rfl⟩ := List.mem_map.1 htext
  have hplain := hnames name (List.fst_mem_of_mem_zipIdx hname)
  simpa [typeName, digits_plain] using hplain

theorem Quotes.template (htext : Quotes text origins) (arity : Nat) :
    Quotes (Cpp.template arity text) origins := by
  unfold Cpp.template
  split
  · exact htext
  · have htypes : QuotesAll ((List.range arity).map fun index => "class " ++ typeName index) [] := by
      refine quotesAll_plain fun text htext => ?_
      obtain ⟨index, -, rfl⟩ := List.mem_map.1 htext
      simp [typeName, digits_plain]
    have hheader : Quotes (templateHeader arity) [] :=
      ((htypes.intercalate (by simp)).behind (by simp)).ahead (by simp)
    exact (hheader.ahead (by simp)).append htext

theorem quotes_typedParameters (hnames : ∀ name ∈ names, '"' ∉ name.toList) :
    Quotes (", ".intercalate (typedParameters names)) [] :=
  (quotesAll_plain (typedParameters_plain hnames)).intercalate (by simp)

theorem quotes_signature (hname : '"' ∉ name.toList) (hnames : ∀ name ∈ names, '"' ∉ name.toList) :
    Quotes (FunctionHead.generic name names).signature [] :=
  ((quotes_typedParameters hnames).behind (by simpa [FunctionHead.generic] using hname)).ahead
    (by simp)

theorem quotes_exhausted : Quotes exhausted [] := by
  have hown : Quotes "\"Coroutine is over\"" [] :=
    quotes_own (List.mem_cons_of_mem _ List.mem_cons_self) rfl
  have htext : exhausted = "throw std::runtime_error(" ++ "\"Coroutine is over\"" ++ ");" := by
    rw [← String.toList_inj]
    simp [exhausted]
  rw [htext]
  exact (hown.behind (by simp)).ahead (by simp)

theorem quotes_dispatch (count : Nat) : Quotes (dispatch count) [] := by
  have hcases : QuotesAll (dispatchCases count) [] := by
    refine ((quotesAll_plain ?_).append (quotesAll_plain ?_)).append
      (quotes_exhausted.behind (by simp)).single
    · simp [startLabel]
    · intro text htext
      obtain ⟨index, -, rfl⟩ := List.mem_map.1 htext
      simp [resumeLabel_plain, digits_plain]
  exact hcases.braced.behind (by simp [stateField])

theorem quotes_constructor (hname : '"' ∉ name.toList)
    (hnames : ∀ name ∈ names, '"' ∉ name.toList) (lowering : Lowering) :
    Quotes (Resumable.mk name names lowering texts).constructor [] := by
  have hparameters := quotes_typedParameters hnames
  have hinitials : QuotesAll (names.map fun name => name ++ "(" ++ name ++ ")") [] := by
    refine quotesAll_plain fun text htext => ?_
    obtain ⟨name, hname, rfl⟩ := List.mem_map.1 htext
    simpa using hnames name hname
  unfold Resumable.constructor
  split
  · exact quotes_plain (by simpa using hname)
  · have hhead := (hparameters.behind (by simpa using hname : '"' ∉ (name ++ "(").toList)).ahead
      (by simp : '"' ∉ ") : ".toList)
    exact (hhead.append (hinitials.intercalate (by simp))).ahead (by simp)

theorem quotes_nextMethod (hbody : QuotesAll texts origins) (lowering : Lowering) :
    Quotes (Resumable.mk name names lowering texts).nextMethod origins := by
  have hstart : Quotes (startLabel ++ ":;") [] := quotes_plain (by simp [startLabel])
  have hlines := (((quotes_dispatch lowering.yieldCount).single.append hstart.single).append
    hbody).append quotes_exhausted.single
  rw [List.append_nil, List.append_nil, List.nil_append] at hlines
  exact hlines.braced.behind (by simp)

theorem quotes_resumable (hname : '"' ∉ name.toList) (hnames : ∀ name ∈ names, '"' ∉ name.toList)
    (hbody : QuotesAll texts origins) (lowering : Lowering) :
    Quotes (Resumable.mk name names lowering texts).render origins := by
  have hfields : QuotesAll (Resumable.mk name names lowering texts).fields [] := by
    refine quotesAll_plain (List.forall_mem_cons.2 ⟨by simp [stateField], ?_⟩)
    intro text htext
    obtain ⟨parameter, hparameter, rfl⟩ := List.mem_map.1 htext
    simpa using typedParameters_plain hnames parameter hparameter
  have hfieldText : Quotes ("\n".intercalate _) [] := hfields.intercalate (by simp)
  have hconstructor : Quotes (Resumable.mk name names lowering texts).constructor [] :=
    quotes_constructor hname hnames lowering
  have hnext : Quotes (Resumable.mk name names lowering texts).nextMethod origins :=
    quotes_nextMethod hbody lowering
  have hmembers := (hconstructor.ahead (by simp : '"' ∉ "\n".toList)).append hnext
  refine Quotes.template ?_ _
  refine (((hfieldText.indent.behind ?_).ahead ?_).append hmembers.indent).ahead ?_
  · simpa using hname
  · simp
  · simp

end Definitions

theorem plain_commas {parameters : List Parameter} {words : List Token}
    (hwords : RendersCommas RendersParameter parameters words) (hfits : ∀ word ∈ words, word.Fits) :
    strings words = [] ∧ ∀ name ∈ parameters.map Parameter.name, '"' ∉ name.toList := by
  induction hwords with
  | last hparameter =>
      cases hparameter with
      | name _ hword =>
          have hplain := plain_of_fits (hfits _ List.mem_cons_self) (.inl hword)
          exact ⟨strings_single hword (by decide), by simpa using hplain⟩
  | cons hparameter hcomma _ ih =>
      cases hparameter with
      | name _ hword =>
          have hplain := plain_of_fits (hfits _ List.mem_cons_self) (.inl hword)
          obtain ⟨hstrings, hnames⟩ := ih fun word hword => hfits word (by simp [hword])
          refine ⟨?_, List.forall_mem_cons.2 ⟨hplain, hnames⟩⟩
          rw [List.singleton_append, strings_cons hword (by decide),
            strings_cons hcomma (by decide), hstrings]

theorem plain_parameters {parameters : List Parameter} {words : List Token}
    (hwords : RendersParens RendersParameter parameters words) (hfits : ∀ word ∈ words, word.Fits) :
    strings words = [] ∧ ∀ name ∈ parameters.map Parameter.name, '"' ∉ name.toList := by
  cases hwords with
  | empty hopening hclosing =>
      exact ⟨by rw [strings_cons hopening (by decide), strings_single hclosing (by decide)],
        by simp⟩
  | items hopening hitems hclosing =>
      obtain ⟨hstrings, hnames⟩ := plain_commas hitems fun word hword => hfits word (by simp [hword])
      refine ⟨?_, hnames⟩
      rw [strings_cons hopening (by decide), strings_concat hclosing (by decide), hstrings]

theorem quotes_global {name : String} {value : Expr} {span : Span} {words : List Token}
    (hwords : RendersStmt (.define name value span) words) (hvalue : Stratified .logical value)
    (hfits : ∀ word ∈ words, word.Fits) :
    Quotes ("auto " ++ name ++ " = " ++ exprText value ++ ";") (strings words) := by
  have htext : Quotes (exprText value) (strings words) ∧ '"' ∉ name.toList := by
    cases hwords with
    | assign _ hassign => exact quotes_assignment hassign hvalue hfits
    | define _ hkeyword hassign =>
        rw [strings_cons hkeyword (by decide)]
        exact quotes_assignment hassign hvalue fun word hword => hfits word (by simp [hword])
  exact (htext.1.behind (by simpa using htext.2)).ahead (by simp)

theorem quotes_item {tree : Stmt} {words : List Token} (hwords : RendersItem tree words)
    (hitem : tree.CanonicalItem) (hfits : ∀ word ∈ words, word.Fits) (before : List Stmt) :
    Quotes (tree.imageItem before).text (strings words) := by
  cases hwords with
  | define hdefine => exact quotes_global hdefine hitem hfits
  | forwardFunction _ hkeyword hname hparameters hsemicolon =>
      have hplain := plain_of_fits (hfits _ (by simp)) (.inl hname)
      obtain ⟨hstrings, hnames⟩ := plain_parameters hparameters fun word hword =>
        hfits word (by simp [hword])
      rw [strings_cons hkeyword (by decide), strings_cons hname (by decide),
        strings_concat hsemicolon (by decide), hstrings]
      exact ((quotes_signature hplain hnames).ahead (by simp)).template _
  | function _ _ hkeyword hname hparameters hbody =>
      have hplain := plain_of_fits (hfits _ (by simp)) (.inl hname)
      obtain ⟨hstrings, hnames⟩ := plain_parameters hparameters fun word hword =>
        hfits word (by simp [hword])
      have htexts := quotes_block hbody hitem.2 (fun word hword => hfits word (by simp [hword]))
      rw [strings_cons hkeyword (by decide), strings_cons hname (by decide), strings_append,
        hstrings, List.nil_append]
      exact (((quotes_signature hplain hnames).ahead (by simp)).append (htexts _ 0).braced).template _
  | entryPoint _ _ hkeyword hname _ hparameters hbody =>
      obtain ⟨hstrings, -⟩ := plain_parameters hparameters fun word hword =>
        hfits word (by simp [hword])
      have htexts := quotes_block hbody hitem (fun word hword => hfits word (by simp [hword]))
      have hsignature : Quotes FunctionHead.entryPoint.signature [] :=
        quotes_plain (by simp [FunctionHead.entryPoint, FunctionHead.signature])
      rw [strings_cons hkeyword (by decide), strings_cons hname (by decide), strings_append,
        hstrings, List.nil_append]
      exact ((hsignature.ahead (by simp)).append (htexts _ 0).braced).template _
  | forwardCoroutine _ hkeyword hcoroutine hname hparameters hsemicolon =>
      have hplain := plain_of_fits (hfits _ (by simp)) (.inl hname)
      obtain ⟨hstrings, -⟩ := plain_parameters hparameters fun word hword =>
        hfits word (by simp [hword])
      rw [strings_cons hkeyword (by decide), strings_cons hcoroutine (by decide),
        strings_cons hname (by decide), strings_concat hsemicolon (by decide), hstrings]
      exact (quotes_plain (by simpa using hplain)).template _
  | coroutine _ _ hkeyword hcoroutine hname hparameters hbody =>
      have hplain := plain_of_fits (hfits _ (by simp)) (.inl hname)
      obtain ⟨hstrings, hnames⟩ := plain_parameters hparameters fun word hword =>
        hfits word (by simp [hword])
      have htexts := quotes_block hbody hitem (fun word hword => hfits word (by simp [hword]))
      rw [strings_cons hkeyword (by decide), strings_cons hcoroutine (by decide),
        strings_cons hname (by decide), strings_append, hstrings, List.nil_append]
      exact quotes_resumable hplain hnames (htexts _ 0) _

theorem quotes_items {trees : List Stmt} {words : List Token} (hwords : RendersItems trees words)
    (hitems : ∀ item ∈ trees, item.CanonicalItem) (hfits : ∀ word ∈ words, word.Fits)
    (before : List Stmt) :
    QuotesAll ((Stmt.imageItems before trees).map Definition.text) (strings words) := by
  induction hwords generalizing before with
  | nil => exact .nil
  | cons hfirst _ ih =>
      rw [List.forall_mem_cons] at hitems
      rw [List.forall_mem_append] at hfits
      rw [strings_append, Stmt.imageItems, List.map_cons]
      exact .cons (quotes_item hfirst hitems.1 hfits.1 before) (ih hitems.2 hfits.2 _)

theorem quotes_compile {program : Program} {words : List Token} {code : String}
    (hwords : program.Renders words) (hitems : program.Canonical)
    (hfits : ∀ word ∈ words, word.Fits) (hcompile : program.compile = .ok code) :
    Quotes code (strings words) := by
  have hrun : unit program .initial = (.ok code, _) := Prod.ext hcompile rfl
  obtain ⟨texts, middle, hitemTexts, hrest⟩ := Action.bind_eq_ok_iff.1 hrun
  rw [get_bind] at hrest
  split at hrest
  · obtain ⟨rfl, -⟩ := Action.pure_eq_ok_iff.1 hrest
    have htexts : QuotesAll texts (strings words) := by
      rw [shows_items State.agrees_initial hitemTexts]
      exact quotes_items hwords hitems hfits []
    have hheaders : Quotes headers [] := quotes_plain (by simp [headers])
    exact ((hheaders.single.append htexts).intercalate (by simp)).ahead (by simp)
  · exact absurd ⟨_, hrest⟩ not_runs_fail

end Emit

open Cpp Emit

/-- A literal is printable, has no quote inside that is not escaped, and denotes the bytes that
it is made of. The literals of the text of a program are, in order, those of the strings of its
source, and denote the bytes of these; in between are only the literals that end a line of output
and that tell of a fault. -/
theorem stringLiterals_keep_bytes :
    (∀ bytes : List UInt8, ∃ inner, (stringLiteral bytes).toList = '"' :: inner ++ ['"'] ∧
      (∀ c ∈ inner, isPrintable c = true) ∧ escapesNext inner = false ∧
      (∀ left right, inner = left ++ '"' :: right → escapesNext left = true) ∧
      denoted? inner = some bytes) ∧
    ∀ source file code, compileSource source file = .ok code →
      ∃ (tokens : List Token) (quotes : List (List Char × Option Token)),
        Token.scan source file = .ok tokens ∧
        literals? code.toList = some (quotes.map Prod.fst) ∧
        quotes.filterMap Prod.snd = tokens.filter (fun token => token.kind = .string) ∧
        ∀ quote ∈ quotes,
          (∀ token ∈ quote.2, denoted? quote.1 = some (Literal.bytes token.value)) ∧
            (quote.2 = none → quote.1 = "\\n".toList ∨ quote.1 = "Coroutine is over".toList) := by
  constructor
  · intro bytes
    refine ⟨bytes.flatMap literalByte, String.toList_ofList, ?_, ?_, ?_, ?_⟩
    · intro c hc
      obtain ⟨byte, -, hbyte⟩ := List.mem_flatMap.1 hc
      exact isPrintable_of_mem_literalByte hbyte
    · exact escapesNext_flatMap_literalByte bytes
    · exact fun left right => escapesNext_of_flatMap_eq
    · exact denoted?_flatMap_literalByte bytes
  · intro source file code hcompile
    obtain ⟨tokens, hscan, hrest⟩ := Emit.bind_eq_ok_iff.1 hcompile
    obtain ⟨program, hread, hcode⟩ := Emit.bind_eq_ok_iff.1 hrest
    obtain ⟨words, position, rfl, hcanonical, hrenders, -⟩ := Program.renders_of_scan hscan hread
    have hfits : ∀ word ∈ words, word.Fits := fun word hword =>
      Token.fits_of_mem_scan hscan (List.mem_append_left _ hword)
    obtain ⟨quotes, hquotes, horigins, hstems⟩ := quotes_compile hrenders hcanonical hfits hcode
    refine ⟨_, quotes, hscan, hquotes.literals?, ?_, ?_⟩
    · rw [horigins]
      simp [Token.strings, Token.endMark]
    · intro quote hquote
      obtain ⟨inner, origin?⟩ := quote
      cases hstems _ hquote with
      | own hinner => exact ⟨by simp, fun _ => by simpa [ownLiterals] using hinner⟩
      | token origin =>
          refine ⟨?_, by simp⟩
          rintro token ⟨⟩
          exact denoted?_flatMap_literalByte _

/-- An octal escape comes before a digit. -/
theorem stringLiterals_keep_bytes_octal :
    ∃ code, compileSource "def main()\x7bprint(\"\\x017\");\x7d" "f" = .ok code ∧
      ∃ (tokens : List Token) (quotes : List (List Char × Option Token)),
        Token.scan "def main()\x7bprint(\"\\x017\");\x7d" "f" = .ok tokens ∧
        literals? code.toList = some (quotes.map Prod.fst) ∧
        quotes.filterMap Prod.snd = tokens.filter (fun token => token.kind = .string) ∧
        ∀ quote ∈ quotes,
          (∀ token ∈ quote.2, denoted? quote.1 = some (Literal.bytes token.value)) ∧
            (quote.2 = none → quote.1 = "\\n".toList ∨ quote.1 = "Coroutine is over".toList) := by
  have hscan : Token.scan "def main()\x7bprint(\"\\x017\");\x7d" "f" = .ok (Token.ofLexemes "f" 0
      [⟨.token .keyDef, "def".toList⟩, ⟨.blank, [' ']⟩, ⟨.token .identifier, "main".toList⟩,
        ⟨.token .openParen, ['(']⟩, ⟨.token .closeParen, [')']⟩, ⟨.token .openCurly, ['\x7b']⟩,
        ⟨.token .keyPrint, "print".toList⟩, ⟨.token .openParen, ['(']⟩,
        ⟨.token .string, "\"\\x017\"".toList⟩, ⟨.token .closeParen, [')']⟩,
        ⟨.token .semicolon, [';']⟩, ⟨.token .closeCurly, ['\x7d']⟩]) :=
    Token.scan_of_cut "f" <| Lexeme.cut_of_next? rfl <| Lexeme.cut_of_next? rfl <|
      Lexeme.cut_of_next? rfl <| Lexeme.cut_of_next? rfl <| Lexeme.cut_of_next? rfl <|
      Lexeme.cut_of_next? rfl <| Lexeme.cut_of_next? rfl <| Lexeme.cut_of_next? rfl <|
      Lexeme.cut_of_next? rfl <| Lexeme.cut_of_next? rfl <| Lexeme.cut_of_next? rfl <|
      Lexeme.cut_of_next? rfl Lexeme.cut_nil
  obtain ⟨code, hcode⟩ : ∃ code, compileSource "def main()\x7bprint(\"\\x017\");\x7d" "f" = .ok code := by
    rw [compileSource_of_scan hscan]
    exact ⟨_, rfl⟩
  exact ⟨code, hcode, stringLiterals_keep_bytes.2 _ _ code hcode⟩

end Coroscript
