import Coroscript.Grammar.Stmt
import Coroscript.Proofs.Grammar.Strata

namespace Coroscript

/-! Program trees that a source can spell, and the tokens that spell them. -/

def Parameter.unspanned (parameter : Parameter) : Parameter :=
  ⟨parameter.name, default⟩

namespace Stmt

/-- Whether a statement ends in an `if` without an `else`, which takes an `else` that
follows it. -/
def endsOpen : Stmt → Bool
  | ifThen _ _ _ => true
  | ifElse _ _ elseBody _ => elseBody.endsOpen
  | _ => false

mutual

/-- The statements of bodies. -/
def Canonical : Stmt → Prop
  | block body _ => CanonicalAll body
  | expression value _ => Stratified .logical value
  | define _ value _ => Stratified .logical value
  | ifThen condition thenBody _ => Stratified .logical condition ∧ thenBody.Canonical
  | ifElse condition thenBody elseBody _ =>
      Stratified .logical condition ∧ thenBody.Canonical ∧ elseBody.Canonical ∧
        thenBody.endsOpen = false
  | returns value? _ => ∀ value ∈ value?, Stratified .logical value
  | yields value _ => Stratified .logical value
  | print arguments _ => ∀ argument ∈ arguments, Stratified .logical argument
  | _ => False

def CanonicalAll : List Stmt → Prop
  | [] => True
  | first :: others => first.Canonical ∧ CanonicalAll others

end

/-- The definitions of the top level. Only the entry point has its name. -/
def CanonicalItem : Stmt → Prop
  | define _ value _ => Stratified .logical value
  | forwardFunction name _ _ => name ≠ entryName
  | function name _ body _ _ => name ≠ entryName ∧ CanonicalAll body
  | forwardCoroutine _ _ _ => True
  | coroutine _ _ body _ _ => CanonicalAll body
  | entryPoint _ body _ _ => CanonicalAll body
  | _ => False

mutual

def unspanned : Stmt → Stmt
  | block body _ => block (unspannedAll body) default
  | expression value _ => expression value.unspanned default
  | define name value _ => define name value.unspanned default
  | ifThen condition thenBody _ => ifThen condition.unspanned thenBody.unspanned default
  | ifElse condition thenBody elseBody _ =>
      ifElse condition.unspanned thenBody.unspanned elseBody.unspanned default
  | returns value? _ => returns (value?.map Expr.unspanned) default
  | yields value _ => yields value.unspanned default
  | print arguments _ => print (Expr.unspannedAll arguments) default
  | forwardFunction name parameters _ =>
      forwardFunction name (parameters.map Parameter.unspanned) default
  | function name parameters body _ _ =>
      function name (parameters.map Parameter.unspanned)
        (unspannedAll body) default default
  | forwardCoroutine name parameters _ =>
      forwardCoroutine name (parameters.map Parameter.unspanned) default
  | coroutine name parameters body _ _ =>
      coroutine name (parameters.map Parameter.unspanned)
        (unspannedAll body) default default
  | entryPoint parameters body _ _ =>
      entryPoint (parameters.map Parameter.unspanned)
        (unspannedAll body) default default

def unspannedAll : List Stmt → List Stmt
  | [] => []
  | first :: others => first.unspanned :: unspannedAll others

end

end Stmt

def Program.Canonical (program : Program) : Prop :=
  ∀ item ∈ program.items, item.CanonicalItem

def Program.unspanned (program : Program) : Program :=
  ⟨Stmt.unspannedAll program.items, default⟩

/-! Renderings. -/

/-- At least one item, with commas between. -/
inductive RendersCommas {α : Type} (renders : α → List Token → Prop) :
    List α → List Token → Prop
  | last {item : α} {words : List Token} (hitem : renders item words) :
      RendersCommas renders [item] words
  | cons {item : α} {items : List α} {words more : List Token} {comma : Token}
      (hitem : renders item words) (hcomma : comma.kind = .comma)
      (hitems : RendersCommas renders items more) :
      RendersCommas renders (item :: items) (words ++ comma :: more)

/-- Items in parentheses, with commas between. -/
inductive RendersParens {α : Type} (renders : α → List Token → Prop) :
    List α → List Token → Prop
  | empty {opening closing : Token} (hopening : opening.kind = .openParen)
      (hclosing : closing.kind = .closeParen) : RendersParens renders [] [opening, closing]
  | items {opening closing : Token} {items : List α} {words : List Token}
      (hopening : opening.kind = .openParen) (hitems : RendersCommas renders items words)
      (hclosing : closing.kind = .closeParen) :
      RendersParens renders items (opening :: (words ++ [closing]))

inductive RendersAssignment (name : String) (value : Expr) : List Token → Prop
  | mk {word equals semicolon : Token} {words : List Token} (hword : word.kind = .identifier)
      (hname : word.value = name) (hequals : equals.kind = .assignment)
      (hvalue : Renders value words) (hsemicolon : semicolon.kind = .semicolon) :
      RendersAssignment name value (word :: equals :: (words ++ [semicolon]))

mutual

/-- `RendersStmt stmt words`: `words` are the tokens of `stmt` in order. A definition may
do without the keyword in front. -/
inductive RendersStmt : Stmt → List Token → Prop
  | block {body : List Stmt} {words : List Token} (span : Span)
      (hbody : RendersBlock body words) : RendersStmt (.block body span) words
  | expression {value : Expr} {words : List Token} {semicolon : Token} (span : Span)
      (hvalue : Renders value words) (hsemicolon : semicolon.kind = .semicolon) :
      RendersStmt (.expression value span) (words ++ [semicolon])
  | assign {name : String} {value : Expr} {words : List Token} (span : Span)
      (hassign : RendersAssignment name value words) :
      RendersStmt (.define name value span) words
  | define {keyword : Token} {name : String} {value : Expr} {words : List Token} (span : Span)
      (hkeyword : keyword.kind = .keyDef) (hassign : RendersAssignment name value words) :
      RendersStmt (.define name value span) (keyword :: words)
  | ifThen {keyword opening closing : Token} {condition : Expr} {thenBody : Stmt}
      {words thenWords : List Token} (span : Span) (hkeyword : keyword.kind = .keyIf)
      (hopening : opening.kind = .openParen) (hcondition : Renders condition words)
      (hclosing : closing.kind = .closeParen) (hthen : RendersStmt thenBody thenWords) :
      RendersStmt (.ifThen condition thenBody span)
        (keyword :: opening :: (words ++ closing :: thenWords))
  | ifElse {keyword opening closing otherwise : Token} {condition : Expr}
      {thenBody elseBody : Stmt} {words thenWords elseWords : List Token} (span : Span)
      (hkeyword : keyword.kind = .keyIf) (hopening : opening.kind = .openParen)
      (hcondition : Renders condition words) (hclosing : closing.kind = .closeParen)
      (hthen : RendersStmt thenBody thenWords) (hotherwise : otherwise.kind = .keyElse)
      (helse : RendersStmt elseBody elseWords) :
      RendersStmt (.ifElse condition thenBody elseBody span)
        (keyword :: opening :: (words ++ closing :: (thenWords ++ otherwise :: elseWords)))
  | returnsNothing {keyword semicolon : Token} (span : Span)
      (hkeyword : keyword.kind = .keyReturn) (hsemicolon : semicolon.kind = .semicolon) :
      RendersStmt (.returns none span) [keyword, semicolon]
  | returns {keyword semicolon : Token} {value : Expr} {words : List Token} (span : Span)
      (hkeyword : keyword.kind = .keyReturn) (hvalue : Renders value words)
      (hsemicolon : semicolon.kind = .semicolon) :
      RendersStmt (.returns (some value) span) (keyword :: (words ++ [semicolon]))
  | yields {keyword semicolon : Token} {value : Expr} {words : List Token} (span : Span)
      (hkeyword : keyword.kind = .keyYield) (hvalue : Renders value words)
      (hsemicolon : semicolon.kind = .semicolon) :
      RendersStmt (.yields value span) (keyword :: (words ++ [semicolon]))
  | print {keyword semicolon : Token} {arguments : List Expr} {words : List Token} (span : Span)
      (hkeyword : keyword.kind = .keyPrint) (harguments : RendersParens Renders arguments words)
      (hsemicolon : semicolon.kind = .semicolon) :
      RendersStmt (.print arguments span) (keyword :: (words ++ [semicolon]))

inductive RendersBlock : List Stmt → List Token → Prop
  | braces {opening closing : Token} {body : List Stmt} {words : List Token}
      (hopening : opening.kind = .openCurly) (hbody : RendersBody body words)
      (hclosing : closing.kind = .closeCurly) :
      RendersBlock body (opening :: (words ++ [closing]))

inductive RendersBody : List Stmt → List Token → Prop
  | nil : RendersBody [] []
  | cons {first : Stmt} {others : List Stmt} {words more : List Token}
      (hfirst : RendersStmt first words) (hothers : RendersBody others more) :
      RendersBody (first :: others) (words ++ more)

end

inductive RendersParameter : Parameter → List Token → Prop
  | name {word : Token} (span : Span) (hword : word.kind = .identifier) :
      RendersParameter ⟨word.value, span⟩ [word]

inductive RendersItem : Stmt → List Token → Prop
  | define {name : String} {value : Expr} {words : List Token} {span : Span}
      (hdefine : RendersStmt (.define name value span) words) :
      RendersItem (.define name value span) words
  | forwardFunction {keyword name semicolon : Token} {parameters : List Parameter}
      {words : List Token} (span : Span) (hkeyword : keyword.kind = .keyDef)
      (hname : name.kind = .identifier)
      (hparameters : RendersParens RendersParameter parameters words)
      (hsemicolon : semicolon.kind = .semicolon) :
      RendersItem (.forwardFunction name.value parameters span)
        (keyword :: name :: (words ++ [semicolon]))
  | function {keyword name : Token} {parameters : List Parameter} {body : List Stmt}
      {words bodyWords : List Token} (bodySpan span : Span) (hkeyword : keyword.kind = .keyDef)
      (hname : name.kind = .identifier)
      (hparameters : RendersParens RendersParameter parameters words)
      (hbody : RendersBlock body bodyWords) :
      RendersItem (.function name.value parameters body bodySpan span)
        (keyword :: name :: (words ++ bodyWords))
  | entryPoint {keyword name : Token} {parameters : List Parameter} {body : List Stmt}
      {words bodyWords : List Token} (bodySpan span : Span) (hkeyword : keyword.kind = .keyDef)
      (hname : name.kind = .identifier) (hentry : name.value = entryName)
      (hparameters : RendersParens RendersParameter parameters words)
      (hbody : RendersBlock body bodyWords) :
      RendersItem (.entryPoint parameters body bodySpan span)
        (keyword :: name :: (words ++ bodyWords))
  | forwardCoroutine {keyword coroutine name semicolon : Token} {parameters : List Parameter}
      {words : List Token} (span : Span) (hkeyword : keyword.kind = .keyDef)
      (hcoroutine : coroutine.kind = .keyCoroutine) (hname : name.kind = .identifier)
      (hparameters : RendersParens RendersParameter parameters words)
      (hsemicolon : semicolon.kind = .semicolon) :
      RendersItem (.forwardCoroutine name.value parameters span)
        (keyword :: coroutine :: name :: (words ++ [semicolon]))
  | coroutine {keyword coroutine name : Token} {parameters : List Parameter} {body : List Stmt}
      {words bodyWords : List Token} (bodySpan span : Span) (hkeyword : keyword.kind = .keyDef)
      (hcoroutine : coroutine.kind = .keyCoroutine) (hname : name.kind = .identifier)
      (hparameters : RendersParens RendersParameter parameters words)
      (hbody : RendersBlock body bodyWords) :
      RendersItem (.coroutine name.value parameters body bodySpan span)
        (keyword :: coroutine :: name :: (words ++ bodyWords))

inductive RendersItems : List Stmt → List Token → Prop
  | nil : RendersItems [] []
  | cons {first : Stmt} {others : List Stmt} {words more : List Token}
      (hfirst : RendersItem first words) (hothers : RendersItems others more) :
      RendersItems (first :: others) (words ++ more)

def Program.Renders (program : Program) (words : List Token) : Prop :=
  RendersItems program.items words

/-! The words of expressions, and of what holds them. -/

/-- The kinds of token that can stand in an expression. -/
def TokenKind.isOfExpr : TokenKind → Bool
  | eof | openCurly | closeCurly | assignment | semicolon | keyDef | keyCoroutine | keyIf
  | keyElse | keyReturn | keyYield | keyPrint => false
  | _ => true

theorem Stratum.isOfExpr_of_mem {level : Stratum} {kind : TokenKind}
    (hkind : kind ∈ level.operators) : kind.isOfExpr = true := by
  have hall : ∀ other ∈ level.operators, other.isOfExpr = true := by
    cases level <;> decide
  exact hall kind hkind

theorem TokenKind.isOfExpr_of_mem_signs {kind : TokenKind} (hkind : kind ∈ signs) :
    kind.isOfExpr = true := by
  have hall : ∀ other ∈ signs, other.isOfExpr = true := by decide
  exact hall kind hkind

theorem NumericType.isOfExpr_of_eq_keyword {kind : TokenKind} {target : NumericType}
    (hkind : kind = target.keyword) : kind.isOfExpr = true := by
  rw [hkind]
  cases target <;> rfl

mutual

theorem Spells.isOfExpr :
    ∀ {level : Stratum} {tree : Expr} {words : List Token}, Spells level tree words →
      ∀ word ∈ words, word.kind.isOfExpr = true
  | _, _, _, .number _ hword => by simp [hword, TokenKind.isOfExpr]
  | _, _, _, .symbol _ hword => by simp [hword, TokenKind.isOfExpr]
  | _, _, _, .string _ hword => by simp [hword, TokenKind.isOfExpr]
  | _, _, _, .grouping _ hopening hinner hclosing => by
      simpa [hopening, hclosing, TokenKind.isOfExpr, or_imp, forall_and] using hinner.isOfExpr
  | _, _, _, .conversion _ hkeyword hopening hvalue hclosing => by
      have hfirst := NumericType.isOfExpr_of_eq_keyword hkeyword
      simpa [hopening, hclosing, TokenKind.isOfExpr, or_imp, forall_and]
        using ⟨hfirst, hvalue.isOfExpr⟩
  | _, _, _, .call _ hcallee harguments => by
      simpa [hcallee, TokenKind.isOfExpr] using harguments.isOfExpr
  | _, _, _, .percent _ hoperand hsign => by
      simpa [hsign, TokenKind.isOfExpr, or_imp, forall_and] using hoperand.isOfExpr
  | _, _, _, .unary _ hsign _ hoperand =>
      List.forall_mem_cons.2 ⟨TokenKind.isOfExpr_of_mem_signs hsign, hoperand.isOfExpr⟩
  | _, _, _, .next _ hkeyword hcoroutine => by
      simpa [hkeyword, TokenKind.isOfExpr] using hcoroutine.isOfExpr
  | _, _, _, .create _ hkeyword hcall => by
      simpa [hkeyword, TokenKind.isOfExpr] using hcall.isOfExpr
  | _, _, _, .exponent _ hsign _ hleft hright => by
      simpa [hsign, TokenKind.isOfExpr, or_imp, forall_and] using ⟨hleft.isOfExpr, hright.isOfExpr⟩
  | _, _, _, .percentOf _ hsign _ hleft hright _ => by
      simpa [hsign, TokenKind.isOfExpr, or_imp, forall_and] using ⟨hleft.isOfExpr, hright.isOfExpr⟩
  | _, _, _, .binary _ hsign _ hleft hright => by
      simpa [Stratum.isOfExpr_of_mem hsign, or_imp, forall_and]
        using ⟨hleft.isOfExpr, hright.isOfExpr⟩
  | _, _, _, .tighter _ htree => htree.isOfExpr

theorem SpellsArguments.isOfExpr :
    ∀ {arguments : List Expr} {words : List Token}, SpellsArguments arguments words →
      ∀ word ∈ words, word.kind.isOfExpr = true
  | _, _, .empty hopening hclosing => by simp [hopening, hclosing, TokenKind.isOfExpr]
  | _, _, .items hopening harguments hclosing => by
      simpa [hopening, hclosing, TokenKind.isOfExpr, or_imp, forall_and]
        using harguments.isOfExpr

theorem SpellsSeparated.isOfExpr :
    ∀ {trees : List Expr} {words : List Token}, SpellsSeparated trees words →
      ∀ word ∈ words, word.kind.isOfExpr = true
  | _, _, .last htree => htree.isOfExpr
  | _, _, .cons htree hcomma htrees => by
      simpa [hcomma, TokenKind.isOfExpr, or_imp, forall_and] using ⟨htree.isOfExpr, htrees.isOfExpr⟩

end

theorem Stratified.isOfExpr {tree : Expr} {words : List Token}
    (htree : Stratified .logical tree) (hwords : Renders tree words) :
    ∀ word ∈ words, word.kind.isOfExpr = true :=
  (htree.spells hwords).isOfExpr

theorem TokenKind.ne_of_isOfExpr {kind other : TokenKind} (hkind : kind.isOfExpr = true)
    (hother : other.isOfExpr = false) : kind ≠ other := by
  rintro rfl
  rw [hother] at hkind
  contradiction

theorem Stratified.words_eq_cons {tree : Expr} {words : List Token}
    (htree : Stratified .logical tree) (hwords : Renders tree words) :
    ∃ first others, words = first :: others ∧ first.kind.isOfExpr = true := by
  have hkinds := htree.isOfExpr hwords
  obtain ⟨first, others, rfl, _⟩ := hwords.words_eq_cons
  exact ⟨first, others, rfl, hkinds first List.mem_cons_self⟩

theorem RendersParens.words_eq_cons {α : Type} {renders : α → List Token → Prop} {items : List α}
    {words : List Token} (hwords : RendersParens renders items words) :
    ∃ first others, words = first :: others ∧ first.kind = .openParen := by
  cases hwords with
  | empty hopening _ => exact ⟨_, _, rfl, hopening⟩
  | items hopening _ _ => exact ⟨_, _, rfl, hopening⟩

theorem RendersAssignment.words_eq {name : String} {value : Expr} {words : List Token}
    (hwords : RendersAssignment name value words) :
    ∃ word equals others, words = word :: equals :: others ∧ word.kind = .identifier ∧
      equals.kind = .assignment := by
  cases hwords with
  | mk hword _ hequals _ _ => exact ⟨_, _, _, rfl, hword, hequals⟩

/-- A statement starts with no word that ends what stands before it. -/
theorem RendersStmt.words_eq_cons {stmt : Stmt} {words : List Token}
    (hwords : RendersStmt stmt words) (hstmt : stmt.Canonical) :
    ∃ first others, words = first :: others ∧
      first.kind ∉ [TokenKind.closeCurly, .eof, .keyElse] := by
  cases hwords with
  | block _ hblock =>
      cases hblock with
      | braces hopening _ _ => exact ⟨_, _, rfl, by rw [hopening]; decide⟩
  | expression _ hvalue _ =>
      simp only [Stmt.Canonical] at hstmt
      obtain ⟨first, others, rfl, hfirst⟩ := hstmt.words_eq_cons hvalue
      refine ⟨first, _, rfl, ?_⟩
      intro hkind
      simp only [List.mem_cons, List.not_mem_nil, or_false] at hkind
      rcases hkind with hkind | hkind | hkind <;> rw [hkind] at hfirst <;> contradiction
  | assign _ hassign =>
      obtain ⟨word, equals, others, rfl, hword, _⟩ := hassign.words_eq
      exact ⟨word, _, rfl, by rw [hword]; decide⟩
  | define _ hkeyword _ => exact ⟨_, _, rfl, by rw [hkeyword]; decide⟩
  | ifThen _ hkeyword _ _ _ _ => exact ⟨_, _, rfl, by rw [hkeyword]; decide⟩
  | ifElse _ hkeyword _ _ _ _ _ _ => exact ⟨_, _, rfl, by rw [hkeyword]; decide⟩
  | returnsNothing _ hkeyword _ => exact ⟨_, _, rfl, by rw [hkeyword]; decide⟩
  | returns _ hkeyword _ _ => exact ⟨_, _, rfl, by rw [hkeyword]; decide⟩
  | yields _ hkeyword _ _ => exact ⟨_, _, rfl, by rw [hkeyword]; decide⟩
  | print _ hkeyword _ _ => exact ⟨_, _, rfl, by rw [hkeyword]; decide⟩

theorem RendersBody.head?_ne_else {body : List Stmt} {words : List Token} {closing : Token}
    (hwords : RendersBody body words) (hbody : Stmt.CanonicalAll body)
    (hclosing : closing.kind = .closeCurly) (rest : List Token) :
    ∀ token ∈ (words ++ closing :: rest).head?, token.kind ≠ .keyElse := by
  intro token htoken
  cases hwords with
  | nil =>
      cases htoken
      rw [hclosing]
      decide
  | cons hfirst _ =>
      simp only [Stmt.CanonicalAll] at hbody
      obtain ⟨first, others, rfl, hkind⟩ := hfirst.words_eq_cons hbody.1
      cases htoken
      intro helse
      rw [helse] at hkind
      exact hkind (by decide)

/-! No rendering holds an end mark. -/

/-- Words none of which is the mark of the end. -/
def Unended (words : List Token) : Prop :=
  ∀ word ∈ words, word.kind ≠ .eof

theorem unended_nil : Unended [] := by
  intro word hword
  contradiction

theorem Unended.cons {first : Token} {words : List Token} {kind : TokenKind}
    (hwords : Unended words) (hfirst : first.kind = kind) (hkind : kind ≠ .eof) :
    Unended (first :: words) :=
  List.forall_mem_cons.2 ⟨hfirst ▸ hkind, hwords⟩

theorem Unended.append {words more : List Token} (hwords : Unended words)
    (hmore : Unended more) : Unended (words ++ more) :=
  List.forall_mem_append.2 ⟨hwords, hmore⟩

theorem RendersCommas.unended {α : Type} {renders : α → List Token → Prop} {items : List α}
    {words : List Token} (hwords : RendersCommas renders items words)
    (hrenders : ∀ item ∈ items, ∀ words, renders item words → Unended words) :
    Unended words := by
  induction hwords with
  | last hitem => exact hrenders _ List.mem_cons_self _ hitem
  | cons hitem hcomma _ ih =>
      rw [List.forall_mem_cons] at hrenders
      exact (hrenders.1 _ hitem).append ((ih hrenders.2).cons hcomma (by decide))

theorem RendersParens.unended {α : Type} {renders : α → List Token → Prop} {items : List α}
    {words : List Token} (hwords : RendersParens renders items words)
    (hrenders : ∀ item ∈ items, ∀ words, renders item words → Unended words) :
    Unended words := by
  cases hwords with
  | empty hopening hclosing =>
      exact (unended_nil.cons hclosing (by decide)).cons hopening (by decide)
  | items hopening hitems hclosing =>
      have hlast := unended_nil.cons hclosing (by decide)
      exact ((hitems.unended hrenders).append hlast).cons hopening (by decide)

theorem unended_of_isOfExpr {words : List Token}
    (hwords : ∀ word ∈ words, word.kind.isOfExpr = true) : Unended words :=
  fun word hword => TokenKind.ne_of_isOfExpr (hwords word hword) rfl

theorem RendersAssignment.unended {name : String} {value : Expr} {words : List Token}
    (hwords : RendersAssignment name value words) (hvalue : Stratified .logical value) :
    Unended words := by
  cases hwords with
  | mk hword _ hequals hrenders hsemicolon =>
      have hrest := unended_of_isOfExpr (hvalue.isOfExpr hrenders)
      have hlast := unended_nil.cons hsemicolon (by decide)
      exact ((hrest.append hlast).cons hequals (by decide)).cons hword (by decide)

mutual

theorem RendersStmt.unended :
    ∀ {stmt : Stmt} {words : List Token}, RendersStmt stmt words → stmt.Canonical →
      Unended words
  | _, _, .block _ hbody, hstmt => by
      simp only [Stmt.Canonical] at hstmt
      exact hbody.unended hstmt
  | _, _, .expression _ hvalue hsemicolon, hstmt => by
      simp only [Stmt.Canonical] at hstmt
      have hlast := unended_nil.cons hsemicolon (by decide)
      exact (unended_of_isOfExpr (hstmt.isOfExpr hvalue)).append hlast
  | _, _, .assign _ hassign, hstmt => by
      simp only [Stmt.Canonical] at hstmt
      exact hassign.unended hstmt
  | _, _, .define _ hkeyword hassign, hstmt => by
      simp only [Stmt.Canonical] at hstmt
      exact (hassign.unended hstmt).cons hkeyword (by decide)
  | _, _, .ifThen _ hkeyword hopening hcondition hclosing hthen, hstmt => by
      simp only [Stmt.Canonical] at hstmt
      have hbody := (hthen.unended hstmt.2).cons hclosing (by decide)
      have hwords := unended_of_isOfExpr (hstmt.1.isOfExpr hcondition)
      exact ((hwords.append hbody).cons hopening (by decide)).cons hkeyword (by decide)
  | _, _, .ifElse _ hkeyword hopening hcondition hclosing hthen hotherwise helse, hstmt => by
      simp only [Stmt.Canonical] at hstmt
      have hrest := (helse.unended hstmt.2.2.1).cons hotherwise (by decide)
      have hbody := ((hthen.unended hstmt.2.1).append hrest).cons hclosing (by decide)
      have hwords := unended_of_isOfExpr (hstmt.1.isOfExpr hcondition)
      exact ((hwords.append hbody).cons hopening (by decide)).cons hkeyword (by decide)
  | _, _, .returnsNothing _ hkeyword hsemicolon, _ =>
      (unended_nil.cons hsemicolon (by decide)).cons hkeyword (by decide)
  | _, _, .returns _ hkeyword hvalue hsemicolon, hstmt => by
      simp only [Stmt.Canonical] at hstmt
      have hwords := unended_of_isOfExpr ((hstmt _ rfl).isOfExpr hvalue)
      have hlast := unended_nil.cons hsemicolon (by decide)
      exact (hwords.append hlast).cons hkeyword (by decide)
  | _, _, .yields _ hkeyword hvalue hsemicolon, hstmt => by
      simp only [Stmt.Canonical] at hstmt
      have hlast := unended_nil.cons hsemicolon (by decide)
      exact ((unended_of_isOfExpr (hstmt.isOfExpr hvalue)).append hlast).cons hkeyword (by decide)
  | _, _, .print _ hkeyword harguments hsemicolon, hstmt => by
      simp only [Stmt.Canonical] at hstmt
      have hlast := unended_nil.cons hsemicolon (by decide)
      have hwords := harguments.unended fun argument hargument _ hrenders =>
        unended_of_isOfExpr ((hstmt argument hargument).isOfExpr hrenders)
      exact (hwords.append hlast).cons hkeyword (by decide)

theorem RendersBlock.unended :
    ∀ {body : List Stmt} {words : List Token}, RendersBlock body words →
      Stmt.CanonicalAll body → Unended words
  | _, _, .braces hopening hbody hclosing, hstmts =>
      ((hbody.unended hstmts).append (unended_nil.cons hclosing (by decide))).cons hopening
        (by decide)

theorem RendersBody.unended :
    ∀ {body : List Stmt} {words : List Token}, RendersBody body words →
      Stmt.CanonicalAll body → Unended words
  | _, _, .nil, _ => unended_nil
  | _, _, .cons hfirst hothers, hstmts => by
      simp only [Stmt.CanonicalAll] at hstmts
      exact (hfirst.unended hstmts.1).append (hothers.unended hstmts.2)

end

theorem RendersParameter.unended {parameter : Parameter} {words : List Token}
    (hwords : RendersParameter parameter words) : Unended words := by
  cases hwords with
  | name _ hword => exact unended_nil.cons hword (by decide)

theorem RendersParens.unended_header {name : Token} {parameters : List Parameter}
    {words more : List Token} (hparameters : RendersParens RendersParameter parameters words)
    (hname : name.kind = .identifier) (hmore : Unended more) :
    Unended (name :: (words ++ more)) := by
  have hwords := hparameters.unended fun _ _ _ => RendersParameter.unended
  exact (hwords.append hmore).cons hname (by decide)

theorem RendersItem.unended {item : Stmt} {words : List Token} (hwords : RendersItem item words)
    (hitem : item.CanonicalItem) : Unended words := by
  cases hwords with
  | define hdefine =>
      refine hdefine.unended ?_
      simpa only [Stmt.Canonical, Stmt.CanonicalItem] using hitem
  | forwardFunction _ hkeyword hname hparameters hsemicolon =>
      have hlast := unended_nil.cons hsemicolon (by decide)
      exact (hparameters.unended_header hname hlast).cons hkeyword (by decide)
  | function _ _ hkeyword hname hparameters hbody =>
      have hlast := hbody.unended hitem.2
      exact (hparameters.unended_header hname hlast).cons hkeyword (by decide)
  | entryPoint _ _ hkeyword hname _ hparameters hbody =>
      have hlast := hbody.unended hitem
      exact (hparameters.unended_header hname hlast).cons hkeyword (by decide)
  | forwardCoroutine _ hkeyword hcoroutine hname hparameters hsemicolon =>
      have hlast := unended_nil.cons hsemicolon (by decide)
      have hheader := hparameters.unended_header hname hlast
      exact (hheader.cons hcoroutine (by decide)).cons hkeyword (by decide)
  | coroutine _ _ hkeyword hcoroutine hname hparameters hbody =>
      have hheader := hparameters.unended_header hname (hbody.unended hitem)
      exact (hheader.cons hcoroutine (by decide)).cons hkeyword (by decide)

theorem RendersItem.words_eq_cons {item : Stmt} {words : List Token}
    (hwords : RendersItem item words) (hitem : item.CanonicalItem) :
    ∃ first others, words = first :: others ∧ first.kind ≠ .eof := by
  have hunended := hwords.unended hitem
  cases words with
  | nil =>
      cases hwords with
      | define hdefine =>
          cases hdefine with
          | assign _ hassign => cases hassign
  | cons first others => exact ⟨first, others, rfl, hunended first List.mem_cons_self⟩

theorem RendersItems.unended {items : List Stmt} {words : List Token}
    (hwords : RendersItems items words) (hitems : ∀ item ∈ items, item.CanonicalItem) :
    Unended words := by
  induction hwords with
  | nil => exact unended_nil
  | cons hfirst _ ih =>
      rw [List.forall_mem_cons] at hitems
      exact (hfirst.unended hitems.1).append (ih hitems.2)

end Coroscript
