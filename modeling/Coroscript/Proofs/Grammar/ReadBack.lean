import Coroscript.Proofs.Grammar.Canonical
import Coroscript.Proofs.Grammar.Completeness

namespace Coroscript

/-! Every rendering of a canonical program is read back. -/

namespace Parser

variable {α β : Type} {words rest : List Token} {holds : β → Prop} {next : α → Parser β}

/-- Before `words` and then `rest`, the reader takes `words` and returns what `holds`
describes. -/
def Reads (reader : Parser α) (words rest : List Token) (holds : α → Prop) : Prop :=
  ∀ cursor : Cursor, rest ≠ [] → cursor.tokens = words ++ rest →
    ∃ found after, reader cursor = (.ok found, after) ∧ after.tokens = rest ∧ holds found

theorem reads_empty {reader : Parser β} : Reads reader words [] holds := by
  intro cursor hrest
  contradiction

theorem reads_pure {b : β} (hb : holds b) : Reads (pure b) [] rest holds := by
  intro cursor _ htokens
  exact ⟨b, cursor, rfl, htokens, hb⟩

theorem Reads.bind {reader : Parser α} {keeps : α → Prop} {more : List Token}
    (hreader : Reads reader words (more ++ rest) keeps)
    (hnext : ∀ found, keeps found → Reads (next found) more rest holds) :
    Reads (reader >>= next) (words ++ more) rest holds := by
  intro cursor hrest htokens
  rw [List.append_assoc] at htokens
  have hmore : more ++ rest ≠ [] := by simp [hrest]
  obtain ⟨found, middle, hread, hmiddle, hkeeps⟩ := hreader cursor hmore htokens
  obtain ⟨result, after, hresult, hafter, hholds⟩ := hnext found hkeeps middle hrest hmiddle
  exact ⟨result, after, by rw [Action.bind_of_ok hread, hresult], hafter, hholds⟩

theorem reads_look {view : Cursor → α} (hnext : ∀ a, Reads (next a) words rest holds) :
    Reads (Action.gets view >>= next) words rest holds := by
  intro cursor hrest htokens
  exact hnext (view cursor) cursor hrest htokens

theorem reads_kind {token : Token} {others : List Token} {next : TokenKind → Parser β}
    (htoken : words ++ rest = token :: others) (hnext : Reads (next token.kind) words rest holds) :
    Reads (kind >>= next) words rest holds := by
  intro cursor hrest htokens
  have hcurrent : cursor.current = token := Cursor.current_eq (htokens.trans htoken)
  rw [← hcurrent] at hnext
  exact hnext cursor hrest htokens

theorem reads_peekKind {count : Nat} {token : Token} {next : TokenKind → Parser β}
    (htoken : (words ++ rest)[count]? = some token)
    (hnext : Reads (next token.kind) words rest holds) :
    Reads (peekKind count >>= next) words rest holds := by
  intro cursor hrest htokens
  have hpeek : cursor.peek count = token := by
    rw [Cursor.peek, htokens, htoken, Option.getD_some]
  rw [← hpeek] at hnext
  exact hnext cursor hrest htokens

theorem reads_advance {token : Token} {next : Token → Parser β}
    (hnext : Reads (next token) words rest holds) :
    Reads (advance >>= next) (token :: words) rest holds := by
  intro cursor hrest htokens
  have hmore : words ++ rest ≠ [] := by simp [hrest]
  rw [Action.bind_of_ok (advance_ok htokens)]
  exact hnext cursor.advance hrest (Cursor.tokens_advance htokens hmore)

theorem reads_expect {token : Token} {kind : TokenKind} {next : Token → Parser β}
    (hkind : token.kind = kind) (hnext : Reads (next token) words rest holds) :
    Reads (expect kind >>= next) (token :: words) rest holds := by
  intro cursor hrest htokens
  have hmore : words ++ rest ≠ [] := by simp [hrest]
  rw [Action.bind_of_ok (expect_ok htokens hkind)]
  exact hnext cursor.advance hrest (Cursor.tokens_advance htokens hmore)

theorem reads_expectBecause {token : Token} {kind : TokenKind} {message : String}
    {next : Token → Parser β} (hkind : token.kind = kind)
    (hnext : Reads (next token) words rest holds) :
    Reads (expectBecause kind message >>= next) (token :: words) rest holds := by
  intro cursor hrest htokens
  have hread : expectBecause kind message cursor = (.ok token, cursor.advance) := by
    rw [expectBecause, Cursor.current_eq htokens, if_pos hkind, advance_ok htokens]
  have hmore : words ++ rest ≠ [] := by simp [hrest]
  rw [Action.bind_of_ok hread]
  exact hnext cursor.advance hrest (Cursor.tokens_advance htokens hmore)

/-- A reader that is bounded by the tokens that are left has room for `words`. -/
theorem reads_remaining {reader : Nat → Parser β}
    (hreader : ∀ bound, words.length < bound → Reads (reader bound) words rest holds) :
    Reads (fun cursor => reader cursor.remaining cursor) words rest holds := by
  intro cursor hrest htokens
  refine hreader cursor.remaining ?_ cursor hrest htokens
  have hlength := List.length_pos_iff.2 hrest
  rw [Cursor.remaining_eq_length, htokens, List.length_append]
  omega

theorem Reads.finish {reader : Parser α} {keeps : α → Prop}
    (hreader : Reads reader words rest keeps)
    (hnext : ∀ found, keeps found → Reads (next found) [] rest holds) :
    Reads (reader >>= next) words rest holds := by
  rw [← List.append_nil words]
  exact Reads.bind hreader hnext

end Parser

/-! Lists in parentheses. -/

open Coroscript.Parser

section Lists

variable {α γ : Type} {item : Parser α} {renders : α → List Token → Prop} {view : α → γ}
  {items : List α} {words rest : List Token}

/-- Each rendering of `a` is read as something that looks like `a`. -/
structure ReadsItem (item : Parser α) (renders : α → List Token → Prop) (view : α → γ) (a : α) :
    Prop where
  reads : ∀ {words rest : List Token} {stop : Token}, renders a words →
    stop.kind ∈ [TokenKind.comma, .closeParen] →
    Reads item words (stop :: rest) fun found => view found = view a
  starts : ∀ {words : List Token}, renders a words →
    ∃ first others, words = first :: others ∧ first.kind ≠ .closeParen

theorem RendersCommas.reads (hwords : RendersCommas renders items words)
    (hitem : ∀ a ∈ items, ReadsItem item renders view a) {closing : Token}
    (hclosing : closing.kind = .closeParen) {bound : Nat} (hbound : words.length < bound) :
    Reads (separated item bound) words (closing :: rest) fun found =>
      found.map view = items.map view := by
  induction hwords generalizing bound with
  | last hlast =>
      cases bound with
      | zero => contradiction
      | succ bound =>
          rw [separated]
          apply Reads.finish ((hitem _ List.mem_cons_self).reads hlast (by rw [hclosing]; decide))
          intro found hfound
          apply reads_kind rfl
          rw [hclosing, if_neg (by decide)]
          apply reads_pure
          rw [List.map_singleton, List.map_singleton, hfound]
  | cons hfirst hcomma _ ih =>
      rw [List.forall_mem_cons] at hitem
      cases bound with
      | zero => contradiction
      | succ bound =>
          rw [List.length_append, List.length_cons] at hbound
          rw [separated]
          apply Reads.bind (hitem.1.reads hfirst (by rw [hcomma]; decide))
          intro found hfound
          apply reads_kind rfl
          rw [hcomma, if_pos rfl]
          apply reads_advance
          apply Reads.finish (ih hitem.2 (by omega))
          intro others hothers
          apply reads_pure
          rw [List.map_cons, List.map_cons, hfound, hothers]

theorem RendersCommas.words_eq_cons (hwords : RendersCommas renders items words)
    (hitem : ∀ a ∈ items, ReadsItem item renders view a) :
    ∃ first others, words = first :: others ∧ first.kind ≠ .closeParen := by
  cases hwords with
  | last hlast => exact (hitem _ List.mem_cons_self).starts hlast
  | cons hfirst _ _ =>
      obtain ⟨first, others, rfl, hkind⟩ := (hitem _ List.mem_cons_self).starts hfirst
      exact ⟨first, _, rfl, hkind⟩

theorem RendersParens.reads (hwords : RendersParens renders items words)
    (hitem : ∀ a ∈ items, ReadsItem item renders view a) :
    Reads (parenthesised item) words rest fun found => found.map view = items.map view := by
  cases hwords with
  | empty hopening hclosing =>
      rw [parenthesised]
      apply reads_expect hopening
      apply reads_kind rfl
      rw [hclosing, if_pos rfl]
      apply reads_advance
      exact reads_pure rfl
  | @items opening closing _ words hopening hitems hclosing =>
      obtain ⟨first, others, heq, hkind⟩ := hitems.words_eq_cons hitem
      have hfirst : words ++ [closing] ++ rest = first :: (others ++ [closing] ++ rest) := by
        rw [heq]
        rfl
      rw [parenthesised]
      apply reads_expect hopening
      apply reads_kind hfirst
      rw [if_neg hkind]
      apply Reads.bind
      · apply reads_remaining
        intro bound hbound
        exact hitems.reads hitem hclosing hbound
      · intro found hfound
        apply reads_expect hclosing
        exact reads_pure hfound

end Lists

theorem Expr.unspannedAll_eq_map (trees : List Expr) :
    Expr.unspannedAll trees = trees.map Expr.unspanned := by
  induction trees with
  | nil => rfl
  | cons tree trees ih => rw [Expr.unspannedAll, List.map_cons, ih]

namespace Grammar

variable {words rest : List Token}

/-! Expressions and definitions. -/

theorem reads_expr {tree : Expr} {stop : Token} (htree : Stratified .logical tree)
    (hwords : Renders tree words)
    (hstop : stop.kind ∈ [TokenKind.semicolon, .comma, .closeParen]) :
    Reads (standard.expr .lowest) words (stop :: rest) fun found =>
      found.unspanned = tree.unspanned := by
  intro cursor _ htokens
  have hpowers : ∀ kind ∈ [TokenKind.semicolon, .comma, .closeParen],
      kind ≠ .percent ∧ (standard.power? kind).getD .lowest = .lowest := by decide
  obtain ⟨hpercent, hlowest⟩ := hpowers stop.kind hstop
  have hread : ReadsAs .logical tree words := (htree.spells hwords).readsAs
  obtain ⟨found, after, hfound, hsame, hafter⟩ := hread.whole htokens (List.cons_ne_nil _ _)
    (powerBefore_cons hpercent hlowest) (Nat.le_refl _)
  exact ⟨found, after, hfound, hafter, hsame⟩

theorem readsItem_expr {tree : Expr} (htree : Stratified .logical tree) :
    ReadsItem (standard.expr .lowest) Renders Expr.unspanned tree where
  reads := by
    intro words rest stop hwords hstop
    exact reads_expr htree hwords (.tail _ hstop)
  starts := by
    intro words hwords
    obtain ⟨first, others, rfl, hfirst⟩ := (htree.spells hwords).words_eq_cons
    refine ⟨first, others, rfl, ?_⟩
    intro hkind
    rw [hkind] at hfirst
    simp [startsOperand] at hfirst

theorem readsItem_parameter (parameter : Parameter) :
    ReadsItem (do
        let name ← expectBecause .identifier "expected parameter name"
        return ⟨name.value, name.span⟩) RendersParameter Parameter.unspanned parameter where
  reads := by
    intro words rest stop hwords _
    cases hwords with
    | name span hword =>
        apply reads_expectBecause hword
        exact reads_pure rfl
  starts := by
    intro words hwords
    cases hwords with
    | name span hword => exact ⟨_, _, rfl, by rw [hword]; decide⟩

theorem reads_parameters {items : List Parameter}
    (hwords : RendersParens RendersParameter items words) :
    Reads parameters words rest fun found =>
      found.map Parameter.unspanned = items.map Parameter.unspanned :=
  hwords.reads fun parameter _ => readsItem_parameter parameter

attribute [local simp] Stmt.unspanned Stmt.unspannedAll

/-- A definition from its name on. -/
def assignment (grammar : Grammar) (start : Position) : Parser Stmt := do
  let name ← expectBecause .identifier "expected identifier in variable definition"
  let _ ← expect .assignment
  let value ← grammar.expr .lowest
  let _ ← expect .semicolon
  return .define name.value value ⟨start, ← previousEnd⟩

theorem define_eq (grammar : Grammar) :
    define grammar = (do
      let start ← position
      if (← kind) = .keyDef then
        let _ ← advance
        assignment grammar start
      else assignment grammar start) :=
  rfl

theorem reads_assignment {name : String} {value : Expr}
    (hwords : RendersAssignment name value words) (hvalue : Stratified .logical value)
    (start : Position) :
    Reads (assignment standard start) words rest fun found =>
      found.unspanned = .define name value.unspanned default := by
  cases hwords with
  | mk hword hname hequals hrenders hsemicolon =>
      rw [assignment]
      apply reads_expectBecause hword
      apply reads_expect hequals
      apply Reads.bind (reads_expr hvalue hrenders (by rw [hsemicolon]; decide))
      intro found hfound
      apply reads_expect hsemicolon
      apply reads_look
      intro stop
      apply reads_pure
      simp [hname, hfound]

theorem reads_define {name : String} {value : Expr} {span : Span}
    (hwords : RendersStmt (.define name value span) words) (hvalue : Stratified .logical value) :
    Reads (define standard) words rest fun found =>
      found.unspanned = .define name value.unspanned default := by
  rw [define_eq]
  apply reads_look
  intro start
  cases hwords with
  | assign _ hassign =>
      have hread : Reads (assignment standard start) words rest _ :=
        reads_assignment hassign hvalue start
      obtain ⟨word, equals, others, rfl, hword, _⟩ := hassign.words_eq
      apply reads_kind rfl
      rw [hword, if_neg (by decide)]
      exact hread
  | define _ hkeyword hassign =>
      apply reads_kind rfl
      rw [hkeyword, if_pos rfl]
      apply reads_advance
      exact reads_assignment hassign hvalue start

/-! Statements, over a reader of those they hold. -/

/-- Every canonical statement of at most `size` words is read back, unless what follows
goes on with it. -/
def ReadsBack (recurse : Parser Stmt) (size : Nat) : Prop :=
  ∀ {stmt : Stmt} {words rest : List Token}, RendersStmt stmt words → stmt.Canonical →
    words.length ≤ size →
    (stmt.endsOpen = true → ∀ token ∈ rest.head?, token.kind ≠ .keyElse) →
    Reads recurse words rest fun found => found.unspanned = stmt.unspanned

variable {recurse : Parser Stmt} {size : Nat}

theorem reads_statements (hrecurse : ReadsBack recurse size) {closing : Token}
    (hclosing : closing.kind = .closeCurly) :
    ∀ {body : List Stmt} {words : List Token}, RendersBody body words → Stmt.CanonicalAll body →
      words.length ≤ size → ∀ bound, words.length < bound →
      Reads (statements recurse bound) words (closing :: rest) fun found =>
        Stmt.unspannedAll found = Stmt.unspannedAll body
  | _, _, .nil, _, _, 0, hbound => by contradiction
  | _, _, .nil, _, _, bound + 1, _ => by
      rw [statements]
      apply reads_kind rfl
      rw [hclosing]
      exact reads_pure rfl
  | _, _, .cons hfirst hothers, _, _, 0, hbound => by contradiction
  | _, _, .cons hfirst hothers, hbody, hsize, bound + 1, hbound => by
      simp only [Stmt.CanonicalAll] at hbody
      rw [List.length_append] at hsize hbound
      have hread := hrecurse hfirst hbody.1 (by omega)
        fun _ => hothers.head?_ne_else hbody.2 hclosing rest
      obtain ⟨first, more, rfl, hkind⟩ := hfirst.words_eq_cons hbody.1
      rw [List.length_cons] at hbound
      rw [statements]
      apply reads_kind rfl
      split
      · rename_i hcurly
        exact absurd (by rw [hcurly]; decide) hkind
      · rename_i heof
        exact absurd (by rw [heof]; decide) hkind
      · apply Reads.bind hread
        intro found hfound
        apply Reads.finish (reads_statements hrecurse hclosing hothers hbody.2 (by omega)
          bound (by omega))
        intro others hothers
        apply reads_pure
        simp [hfound, hothers]

theorem reads_block (hrecurse : ReadsBack recurse size) {body : List Stmt}
    (hwords : RendersBlock body words) (hbody : Stmt.CanonicalAll body)
    (hsize : words.length ≤ size + 1) :
    Reads (block recurse) words rest fun found =>
      Stmt.unspannedAll found.1 = Stmt.unspannedAll body := by
  cases hwords with
  | braces hopening hrenders hclosing =>
      rw [List.length_cons, List.length_append] at hsize
      rw [block]
      apply reads_expect hopening
      apply Reads.bind
      · apply reads_remaining
        intro bound hbound
        exact reads_statements hrecurse hclosing hrenders hbody (by omega) bound hbound
      · intro found hfound
        apply reads_expect hclosing
        exact reads_pure hfound

theorem reads_expression {value : Expr} {semicolon : Token} (span : Span)
    (hvalue : Stratified .logical value) (hwords : Renders value words)
    (hsemicolon : semicolon.kind = .semicolon) :
    Reads (expression standard) (words ++ [semicolon]) rest fun found =>
      found.unspanned = (Stmt.expression value span).unspanned := by
  rw [expression]
  apply Reads.bind (reads_expr hvalue hwords (by rw [hsemicolon]; decide))
  intro found hfound
  apply reads_expect hsemicolon
  apply reads_pure
  simp [hfound]

theorem reads_localDefine {name : String} {value : Expr} {span : Span} {keyword : Token}
    (hkeyword : keyword.kind = .keyDef) (hwords : RendersAssignment name value words)
    (hvalue : Stratified .logical value) :
    Reads (localDefine standard) (keyword :: words) rest fun found =>
      found.unspanned = (Stmt.define name value span).unspanned := by
  have hread : Reads (define standard) (keyword :: words) rest _ :=
    reads_define (.define span hkeyword hwords) hvalue
  obtain ⟨word, equals, others, rfl, hword, hequals⟩ := hwords.words_eq
  rw [localDefine]
  apply reads_peekKind rfl
  apply reads_peekKind rfl
  rw [if_pos ⟨hword, hequals⟩]
  exact hread

theorem reads_ifThen (hrecurse : ReadsBack recurse size) {condition : Expr} {thenBody : Stmt}
    {span : Span} (hwords : RendersStmt (.ifThen condition thenBody span) words)
    (hstmt : (Stmt.ifThen condition thenBody span).Canonical) (hsize : words.length ≤ size + 1)
    (hrest : ∀ token ∈ rest.head?, token.kind ≠ .keyElse) :
    Reads (branch standard recurse) words rest fun found =>
      found.unspanned = (Stmt.ifThen condition thenBody span).unspanned := by
  simp only [Stmt.Canonical] at hstmt
  cases hwords with
  | ifThen _ hkeyword hopening hcondition hclosing hthen =>
      simp only [List.length_cons, List.length_append] at hsize
      rw [branch]
      apply reads_advance
      apply reads_expect hopening
      apply Reads.bind (reads_expr hstmt.1 hcondition (by rw [hclosing]; decide))
      intro foundCondition hfoundCondition
      apply reads_expect hclosing
      apply Reads.finish (hrecurse hthen hstmt.2 (by omega) fun _ => hrest)
      intro foundThen hfoundThen
      cases rest with
      | nil => exact reads_empty
      | cons stop others =>
          apply reads_kind rfl
          rw [if_neg (hrest stop rfl)]
          apply reads_look
          intro stop
          apply reads_pure
          simp [hfoundCondition, hfoundThen]

theorem reads_ifElse (hrecurse : ReadsBack recurse size) {condition : Expr}
    {thenBody elseBody : Stmt} {span : Span}
    (hwords : RendersStmt (.ifElse condition thenBody elseBody span) words)
    (hstmt : (Stmt.ifElse condition thenBody elseBody span).Canonical)
    (hsize : words.length ≤ size + 1)
    (hrest : elseBody.endsOpen = true → ∀ token ∈ rest.head?, token.kind ≠ .keyElse) :
    Reads (branch standard recurse) words rest fun found =>
      found.unspanned = (Stmt.ifElse condition thenBody elseBody span).unspanned := by
  simp only [Stmt.Canonical] at hstmt
  obtain ⟨hcanonical, hthenBody, helseBody, hclosed⟩ := hstmt
  cases hwords with
  | ifElse _ hkeyword hopening hcondition hclosing hthen hotherwise helse =>
      simp only [List.length_cons, List.length_append] at hsize
      rw [branch]
      apply reads_advance
      apply reads_expect hopening
      apply Reads.bind (reads_expr hcanonical hcondition (by rw [hclosing]; decide))
      intro foundCondition hfoundCondition
      apply reads_expect hclosing
      -- The first branch ends in no open `if`, so it leaves the `else` alone.
      apply Reads.bind (hrecurse hthen hthenBody (by omega) fun hopen => by
        rw [hclosed] at hopen
        contradiction)
      intro foundThen hfoundThen
      apply reads_kind rfl
      rw [hotherwise, if_pos rfl]
      apply reads_advance
      apply Reads.finish (hrecurse helse helseBody (by omega) hrest)
      intro foundElse hfoundElse
      apply reads_look
      intro stop
      apply reads_pure
      simp [hfoundCondition, hfoundThen, hfoundElse]

theorem reads_returns {value? : Option Expr} {span : Span}
    (hwords : RendersStmt (.returns value? span) words)
    (hstmt : (Stmt.returns value? span).Canonical) :
    Reads (returns standard) words rest fun found =>
      found.unspanned = (Stmt.returns value? span).unspanned := by
  simp only [Stmt.Canonical] at hstmt
  cases hwords with
  | returnsNothing _ hkeyword hsemicolon =>
      rw [returns]
      apply reads_advance
      apply reads_kind rfl
      rw [hsemicolon, if_pos rfl]
      apply reads_advance
      apply reads_look
      intro stop
      exact reads_pure rfl
  | returns _ hkeyword hvalue hsemicolon =>
      have htree := hstmt _ rfl
      have hread : Reads (standard.expr .lowest) _ (_ :: rest) _ :=
        reads_expr htree hvalue (by rw [hsemicolon]; decide)
      obtain ⟨first, others, rfl, hfirst⟩ := htree.words_eq_cons hvalue
      rw [returns]
      apply reads_advance
      apply reads_kind rfl
      rw [if_neg (TokenKind.ne_of_isOfExpr hfirst rfl)]
      apply Reads.bind hread
      intro found hfound
      apply reads_expect hsemicolon
      apply reads_look
      intro stop
      apply reads_pure
      simp [hfound]

theorem reads_yields {value : Expr} {span : Span}
    (hwords : RendersStmt (.yields value span) words) (hvalue : Stratified .logical value) :
    Reads (yields standard) words rest fun found =>
      found.unspanned = (Stmt.yields value span).unspanned := by
  cases hwords with
  | yields _ hkeyword hrenders hsemicolon =>
      rw [yields]
      apply reads_advance
      apply Reads.bind (reads_expr hvalue hrenders (by rw [hsemicolon]; decide))
      intro found hfound
      apply reads_expect hsemicolon
      apply reads_look
      intro stop
      apply reads_pure
      simp [hfound]

theorem reads_print {arguments : List Expr} {span : Span}
    (hwords : RendersStmt (.print arguments span) words)
    (harguments : ∀ argument ∈ arguments, Stratified .logical argument) :
    Reads (print standard) words rest fun found =>
      found.unspanned = (Stmt.print arguments span).unspanned := by
  cases hwords with
  | print _ hkeyword hrenders hsemicolon =>
      rw [print]
      apply reads_advance
      apply Reads.bind (hrenders.reads fun argument hargument =>
        readsItem_expr (harguments argument hargument))
      intro found hfound
      apply reads_expect hsemicolon
      apply reads_look
      intro stop
      apply reads_pure
      simp [Expr.unspannedAll_eq_map, hfound]

/-! Statements of any depth. -/

theorem reads_by_rule {token : Token} {others : List Token} {rule : StmtRule} {depth : Nat}
    {holds : Stmt → Prop} (htoken : words ++ rest = token :: others)
    (hrule : standard.stmt? token.kind = some rule)
    (hread : Reads (stmtBy standard (stmtWithin standard depth) rule) words rest holds) :
    Reads (stmtWithin standard (depth + 1)) words rest holds := by
  rw [stmtWithin]
  apply reads_kind htoken
  simp only [hrule]
  exact hread

theorem stmt?_of_isOfExpr {kind : TokenKind} (hkind : kind.isOfExpr = true) :
    standard.stmt? kind = none := by
  cases kind <;> first | rfl | contradiction

theorem reads_expression_stmt {value : Expr} {semicolon : Token} {depth : Nat} (span : Span)
    (hvalue : Stratified .logical value) (hwords : Renders value words)
    (hsemicolon : semicolon.kind = .semicolon) :
    Reads (stmtWithin standard (depth + 1)) (words ++ [semicolon]) rest fun found =>
      found.unspanned = (Stmt.expression value span).unspanned := by
  have hread : Reads (expression standard) (words ++ [semicolon]) rest _ :=
    reads_expression span hvalue hwords hsemicolon
  have hkinds := hvalue.isOfExpr hwords
  obtain ⟨first, others, rfl, hfirst⟩ := hvalue.words_eq_cons hwords
  -- No assignment sign stands in an expression or right behind it.
  obtain ⟨second, hsecond, hassign⟩ : ∃ second,
      (first :: others ++ [semicolon] ++ rest)[1]? = some second ∧
        second.kind ≠ .assignment := by
    cases others with
    | nil => exact ⟨semicolon, rfl, by rw [hsemicolon]; decide⟩
    | cons second others =>
        refine ⟨second, rfl, TokenKind.ne_of_isOfExpr (hkinds second ?_) rfl⟩
        exact .tail _ (.head _)
  rw [stmtWithin]
  apply reads_kind rfl
  rw [stmt?_of_isOfExpr hfirst]
  apply reads_kind rfl
  apply reads_peekKind hsecond
  rw [if_neg fun hboth => hassign hboth.2]
  exact hread

theorem reads_assign_stmt {name : String} {value : Expr} {depth : Nat} (span : Span)
    (hwords : RendersAssignment name value words) (hvalue : Stratified .logical value) :
    Reads (stmtWithin standard (depth + 1)) words rest fun found =>
      found.unspanned = (Stmt.define name value span).unspanned := by
  have hread : Reads (define standard) words rest _ := reads_define (.assign span hwords) hvalue
  obtain ⟨word, equals, others, rfl, hword, hequals⟩ := hwords.words_eq
  rw [stmtWithin]
  apply reads_kind rfl
  rw [hword]
  apply reads_kind rfl
  apply reads_peekKind rfl
  rw [if_pos ⟨hword, hequals⟩]
  exact hread

theorem reads_block_stmt {body : List Stmt} {depth : Nat}
    (hrecurse : ReadsBack (stmtWithin standard depth) depth) (span : Span)
    (hwords : RendersBlock body words) (hbody : Stmt.CanonicalAll body)
    (hsize : words.length ≤ depth + 1) :
    Reads (stmtWithin standard (depth + 1)) words rest fun found =>
      found.unspanned = (Stmt.block body span).unspanned := by
  have hread : Reads (block (stmtWithin standard depth)) words rest _ :=
    reads_block hrecurse hwords hbody hsize
  cases hwords with
  | braces hopening _ _ =>
      apply reads_by_rule rfl (by rw [hopening]; rfl)
      rw [stmtBy]
      apply Reads.finish hread
      intro found hfound
      apply reads_pure
      simp [hfound]

theorem readsBack_stmtWithin (depth : Nat) : ReadsBack (stmtWithin standard depth) depth := by
  -- A statement has fewer words than the one that holds it, so they bound the depth.
  induction depth with
  | zero =>
      intro stmt words rest hwords hstmt hsize _
      obtain ⟨first, others, rfl, _⟩ := hwords.words_eq_cons hstmt
      contradiction
  | succ depth ih =>
      intro stmt words rest hwords hstmt hsize hrest
      cases id hwords with
      | block span hbody =>
          simp only [Stmt.Canonical] at hstmt
          exact reads_block_stmt ih span hbody hstmt hsize
      | expression span hvalue hsemicolon =>
          simp only [Stmt.Canonical] at hstmt
          exact reads_expression_stmt span hstmt hvalue hsemicolon
      | assign span hassign =>
          simp only [Stmt.Canonical] at hstmt
          exact reads_assign_stmt span hassign hstmt
      | define span hkeyword hassign =>
          simp only [Stmt.Canonical] at hstmt
          apply reads_by_rule rfl (by rw [hkeyword]; rfl)
          exact reads_localDefine hkeyword hassign hstmt
      | ifThen span hkeyword =>
          apply reads_by_rule rfl (by rw [hkeyword]; rfl)
          exact reads_ifThen ih hwords hstmt hsize (hrest rfl)
      | ifElse span hkeyword =>
          apply reads_by_rule rfl (by rw [hkeyword]; rfl)
          exact reads_ifElse ih hwords hstmt hsize hrest
      | returnsNothing span hkeyword =>
          apply reads_by_rule rfl (by rw [hkeyword]; rfl)
          exact reads_returns hwords hstmt
      | returns span hkeyword =>
          apply reads_by_rule rfl (by rw [hkeyword]; rfl)
          exact reads_returns hwords hstmt
      | yields span hkeyword =>
          simp only [Stmt.Canonical] at hstmt
          apply reads_by_rule rfl (by rw [hkeyword]; rfl)
          exact reads_yields hwords hstmt
      | print span hkeyword =>
          simp only [Stmt.Canonical] at hstmt
          apply reads_by_rule rfl (by rw [hkeyword]; rfl)
          exact reads_print hwords hstmt

theorem readsBack_stmt (size : Nat) : ReadsBack standard.stmt size := by
  intro stmt words rest hwords hstmt _ hrest
  apply reads_remaining
  intro bound hbound
  exact readsBack_stmtWithin bound hwords hstmt (Nat.le_of_lt hbound) hrest

/-! Definitions and programs. -/

theorem reads_body?_none {semicolon : Token} (hsemicolon : semicolon.kind = .semicolon) :
    Reads (body? recurse) [semicolon] rest fun found => found = none := by
  rw [body?]
  apply reads_kind rfl
  rw [hsemicolon, if_pos rfl]
  apply reads_advance
  exact reads_pure rfl

theorem reads_body?_some (hrecurse : ReadsBack recurse size) {body : List Stmt}
    (hwords : RendersBlock body words) (hbody : Stmt.CanonicalAll body)
    (hsize : words.length ≤ size + 1) :
    Reads (body? recurse) words rest fun found => ∃ stmts span,
      found = some (stmts, span) ∧ Stmt.unspannedAll stmts = Stmt.unspannedAll body := by
  have hread : Reads (block recurse) words rest _ := reads_block hrecurse hwords hbody hsize
  cases hwords with
  | braces hopening _ _ =>
      rw [body?]
      apply reads_kind rfl
      rw [hopening, if_neg (by decide)]
      apply Reads.finish hread
      intro found hfound
      exact reads_pure ⟨found.1, found.2, rfl, hfound⟩

theorem reads_forwardFunction {keyword name semicolon : Token} {items : List Parameter}
    (span : Span) (hname : name.kind = .identifier) (hentry : name.value ≠ entryName)
    (hparameters : RendersParens RendersParameter items words)
    (hsemicolon : semicolon.kind = .semicolon) :
    Reads (function recurse) (keyword :: name :: (words ++ [semicolon])) rest fun found =>
      found.unspanned = (Stmt.forwardFunction name.value items span).unspanned := by
  rw [function]
  apply reads_advance
  apply reads_expect hname
  apply Reads.bind (reads_parameters hparameters)
  intro foundParameters hfoundParameters
  rw [if_neg hentry]
  apply Reads.finish (reads_body?_none hsemicolon)
  intro found hfound
  subst hfound
  apply reads_look
  intro stop
  apply reads_pure
  simp [hfoundParameters]

theorem reads_function (hrecurse : ReadsBack recurse size) {keyword name : Token}
    {items : List Parameter} {body : List Stmt} {bodyWords : List Token} (bodySpan span : Span)
    (hname : name.kind = .identifier) (hentry : name.value ≠ entryName)
    (hparameters : RendersParens RendersParameter items words)
    (hwords : RendersBlock body bodyWords) (hbody : Stmt.CanonicalAll body)
    (hsize : bodyWords.length ≤ size + 1) :
    Reads (function recurse) (keyword :: name :: (words ++ bodyWords)) rest fun found =>
      found.unspanned = (Stmt.function name.value items body bodySpan span).unspanned := by
  rw [function]
  apply reads_advance
  apply reads_expect hname
  apply Reads.bind (reads_parameters hparameters)
  intro foundParameters hfoundParameters
  rw [if_neg hentry]
  apply Reads.finish (reads_body?_some hrecurse hwords hbody hsize)
  intro found hfound
  obtain ⟨stmts, foundSpan, rfl, hstmts⟩ := hfound
  apply reads_look
  intro stop
  apply reads_pure
  simp [hfoundParameters, hstmts]

theorem reads_entryPoint (hrecurse : ReadsBack recurse size) {keyword name : Token}
    {items : List Parameter} {body : List Stmt} {bodyWords : List Token} (bodySpan span : Span)
    (hname : name.kind = .identifier) (hentry : name.value = entryName)
    (hparameters : RendersParens RendersParameter items words)
    (hwords : RendersBlock body bodyWords) (hbody : Stmt.CanonicalAll body)
    (hsize : bodyWords.length ≤ size + 1) :
    Reads (function recurse) (keyword :: name :: (words ++ bodyWords)) rest fun found =>
      found.unspanned = (Stmt.entryPoint items body bodySpan span).unspanned := by
  rw [function]
  apply reads_advance
  apply reads_expect hname
  apply Reads.bind (reads_parameters hparameters)
  intro foundParameters hfoundParameters
  rw [if_pos hentry]
  apply Reads.finish (reads_block hrecurse hwords hbody hsize)
  intro found hfound
  apply reads_look
  intro stop
  apply reads_pure
  simp [hfoundParameters, hfound]

theorem reads_forwardCoroutine {keyword word name semicolon : Token} {items : List Parameter}
    (span : Span) (hword : word.kind = .keyCoroutine) (hname : name.kind = .identifier)
    (hparameters : RendersParens RendersParameter items words)
    (hsemicolon : semicolon.kind = .semicolon) :
    Reads (coroutine recurse) (keyword :: word :: name :: (words ++ [semicolon])) rest fun found =>
      found.unspanned = (Stmt.forwardCoroutine name.value items span).unspanned := by
  rw [coroutine]
  apply reads_advance
  apply reads_expect hword
  apply reads_expectBecause hname
  apply Reads.bind (reads_parameters hparameters)
  intro foundParameters hfoundParameters
  apply Reads.finish (reads_body?_none hsemicolon)
  intro found hfound
  subst hfound
  apply reads_look
  intro stop
  apply reads_pure
  simp [hfoundParameters]

theorem reads_coroutine (hrecurse : ReadsBack recurse size) {keyword word name : Token}
    {items : List Parameter} {body : List Stmt} {bodyWords : List Token} (bodySpan span : Span)
    (hword : word.kind = .keyCoroutine) (hname : name.kind = .identifier)
    (hparameters : RendersParens RendersParameter items words)
    (hwords : RendersBlock body bodyWords) (hbody : Stmt.CanonicalAll body)
    (hsize : bodyWords.length ≤ size + 1) :
    Reads (coroutine recurse) (keyword :: word :: name :: (words ++ bodyWords)) rest fun found =>
      found.unspanned = (Stmt.coroutine name.value items body bodySpan span).unspanned := by
  rw [coroutine]
  apply reads_advance
  apply reads_expect hword
  apply reads_expectBecause hname
  apply Reads.bind (reads_parameters hparameters)
  intro foundParameters hfoundParameters
  apply Reads.finish (reads_body?_some hrecurse hwords hbody hsize)
  intro found hfound
  obtain ⟨stmts, foundSpan, rfl, hstmts⟩ := hfound
  apply reads_look
  intro stop
  apply reads_pure
  simp [hfoundParameters, hstmts]

theorem reads_item_define {name : String} {value : Expr} {span : Span}
    (hwords : RendersStmt (.define name value span) words) (hvalue : Stratified .logical value) :
    Reads standard.item words rest fun found =>
      found.unspanned = (Stmt.define name value span).unspanned := by
  have hread : Reads (define standard) words rest _ := reads_define hwords hvalue
  rw [Grammar.item, itemWith]
  cases hwords with
  | assign _ hassign =>
      obtain ⟨word, equals, others, rfl, hword, hequals⟩ := hassign.words_eq
      apply reads_kind rfl
      apply reads_peekKind rfl
      apply reads_look
      intro third
      rw [hword, hequals]
      exact hread
  | define _ hkeyword hassign =>
      obtain ⟨word, equals, others, rfl, hword, hequals⟩ := hassign.words_eq
      apply reads_kind rfl
      apply reads_peekKind rfl
      apply reads_peekKind rfl
      rw [hkeyword, hword, hequals]
      exact hread

theorem reads_item_function {keyword name : Token} {items : List Parameter} {more : List Token}
    {holds : Stmt → Prop} (hkeyword : keyword.kind = .keyDef) (hname : name.kind = .identifier)
    (hparameters : RendersParens RendersParameter items words)
    (hread : Reads (function standard.stmt) (keyword :: name :: (words ++ more)) rest holds) :
    Reads standard.item (keyword :: name :: (words ++ more)) rest holds := by
  obtain ⟨opening, others, rfl, hopening⟩ := hparameters.words_eq_cons
  rw [Grammar.item, itemWith]
  apply reads_kind rfl
  apply reads_peekKind rfl
  apply reads_peekKind rfl
  rw [hkeyword, hname, hopening]
  exact hread

theorem reads_item_coroutine {keyword word : Token} {holds : Stmt → Prop}
    (hkeyword : keyword.kind = .keyDef) (hword : word.kind = .keyCoroutine)
    (hread : Reads (coroutine standard.stmt) (keyword :: word :: words) rest holds) :
    Reads standard.item (keyword :: word :: words) rest holds := by
  rw [Grammar.item, itemWith]
  apply reads_kind rfl
  apply reads_peekKind rfl
  apply reads_look
  intro third
  rw [hkeyword, hword]
  exact hread

theorem reads_item {item : Stmt} (hwords : RendersItem item words) (hitem : item.CanonicalItem) :
    Reads standard.item words rest fun found => found.unspanned = item.unspanned := by
  cases hwords with
  | define hdefine => exact reads_item_define hdefine hitem
  | forwardFunction span hkeyword hname hparameters hsemicolon =>
      apply reads_item_function hkeyword hname hparameters
      exact reads_forwardFunction span hname hitem hparameters hsemicolon
  | function bodySpan span hkeyword hname hparameters hbody =>
      apply reads_item_function hkeyword hname hparameters
      exact reads_function (readsBack_stmt _) bodySpan span hname hitem.1 hparameters hbody
        hitem.2 (Nat.le_succ _)
  | entryPoint bodySpan span hkeyword hname hentry hparameters hbody =>
      apply reads_item_function hkeyword hname hparameters
      exact reads_entryPoint (readsBack_stmt _) bodySpan span hname hentry hparameters hbody
        hitem (Nat.le_succ _)
  | forwardCoroutine span hkeyword hcoroutine hname hparameters hsemicolon =>
      apply reads_item_coroutine hkeyword hcoroutine
      exact reads_forwardCoroutine span hcoroutine hname hparameters hsemicolon
  | coroutine bodySpan span hkeyword hcoroutine hname hparameters hbody =>
      apply reads_item_coroutine hkeyword hcoroutine
      exact reads_coroutine (readsBack_stmt _) bodySpan span hcoroutine hname hparameters hbody
        hitem (Nat.le_succ _)

theorem reads_items {list : List Stmt} {mark : Token} {bound : Nat}
    (hwords : RendersItems list words) (hlist : ∀ item ∈ list, item.CanonicalItem)
    (hmark : mark.kind = .eof) (hbound : words.length < bound) :
    Reads (items standard bound) words (mark :: rest) fun found =>
      Stmt.unspannedAll found = Stmt.unspannedAll list := by
  induction hwords generalizing bound with
  | nil =>
      cases bound with
      | zero => contradiction
      | succ bound =>
          rw [items]
          apply reads_kind rfl
          rw [if_pos hmark]
          exact reads_pure rfl
  | @cons _ _ words more hfirst _ ih =>
      rw [List.forall_mem_cons] at hlist
      cases bound with
      | zero => contradiction
      | succ bound =>
          have hread : Reads standard.item words (more ++ mark :: rest) _ :=
            reads_item hfirst hlist.1
          obtain ⟨first, others, rfl, hkind⟩ := hfirst.words_eq_cons hlist.1
          simp only [List.length_append, List.length_cons] at hbound
          rw [items]
          apply reads_kind rfl
          rw [if_neg hkind]
          apply Reads.bind hread
          intro found hfound
          apply Reads.finish (ih hlist.2 (by omega))
          intro more hmore
          apply reads_pure
          simp [hfound, hmore]

theorem reads_program {program : Program} {mark : Token} (file : String)
    (hwords : program.Renders words) (hprogram : program.Canonical) (hmark : mark.kind = .eof) :
    Reads (standard.program file) words (mark :: rest) fun found =>
      found.unspanned = program.unspanned := by
  rw [Grammar.program]
  apply Reads.finish
  · apply reads_remaining
    intro bound hbound
    exact reads_items hwords hprogram hmark hbound
  · intro found hfound
    apply reads_look
    intro stop
    apply reads_pure
    rw [Program.unspanned, Program.unspanned, hfound]

end Grammar

end Coroscript
