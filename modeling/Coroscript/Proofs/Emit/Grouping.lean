import Mathlib
import Coroscript.Proofs.Cpp.Legible
import Coroscript.Proofs.Emit.Reference
import Coroscript.Proofs.Grammar.Soundness
import Coroscript.Proofs.Token.Writing

namespace Coroscript

/-! The text of an expression groups as the expression does. -/

theorem Token.SameWord.fits {left right : Token} (hsame : left.SameWord right)
    (hfits : left.Fits) : right.Fits := by
  rw [Token.Fits, ← hsame.1, ← hsame.2]
  exact hfits

namespace Expr

mutual

/-- What an expression means in the output language. Parentheses of the source only
group. -/
def image : Expr → Cpp.Term
  | .number text _ => .number text
  | .symbol name _ => .name name
  | .string bytes _ => .string (.ofList (bytes.flatMap Cpp.literalByte))
  | .binary left operator right _ =>
      match operator.kind with
      | .caret => .call (.qualified "std" "pow") [left.image, right.image]
      | .percent => .binary "*" left.image (.binary "*" right.image (.number "0.01"))
      | _ => .binary operator.value left.image right.image
  | .unary operator operand _ => .unary operator.value operand.image
  | .percent operand _ => .binary "*" operand.image (.number "0.01")
  | .grouping inner _ => inner.image
  | .conversion .int value _ => .cast "int" value.image
  | .conversion .float value _ => .cast "double" value.image
  | .call callee arguments _ => .call (.name callee) (imageAll arguments)
  | .next coroutine _ => .call (.member coroutine.image "next") []
  | .create callee arguments _ _ => .call (.name callee) (imageAll arguments)

def imageAll : List Expr → List Cpp.Term
  | [] => []
  | first :: others => first.image :: imageAll others

end

mutual

/-- Whether a number stands right behind a `next` somewhere. -/
def resumesNumber : Expr → Bool
  | .number _ _ | .symbol _ _ | .string _ _ => false
  | .binary left _ right _ => left.resumesNumber || right.resumesNumber
  | .unary _ operand _ => operand.resumesNumber
  | .percent operand _ => operand.resumesNumber
  | .grouping inner _ => inner.resumesNumber
  | .conversion _ value _ => value.resumesNumber
  | .call _ arguments _ => resumesNumberAny arguments
  | .next (.number _ _) _ => true
  | .next coroutine _ => coroutine.resumesNumber
  | .create _ arguments _ _ => resumesNumberAny arguments

def resumesNumberAny : List Expr → Bool
  | [] => false
  | first :: others => first.resumesNumber || resumesNumberAny others

end

mutual

theorem name_mem_image : ∀ (tree : Expr) {reference : Reference},
    reference ∈ tree.references → reference.name ∈ tree.image.names
  | .number _ _, _, hreference | .string _ _, _, hreference => by contradiction
  | .symbol name _, _, hreference => by
      rw [references, List.mem_singleton] at hreference
      subst hreference
      exact List.mem_cons_self
  | .binary left operator right _, reference, hreference => by
      have hname : reference.name ∈ left.image.names ∨ reference.name ∈ right.image.names := by
        rcases List.mem_append.1 hreference with hreference | hreference
        · exact .inl (name_mem_image left hreference)
        · exact .inr (name_mem_image right hreference)
      rw [image]
      split <;> simpa [Cpp.Term.names, Cpp.Term.namesAll] using hname
  | .unary _ operand _, _, hreference => name_mem_image operand hreference
  | .percent operand _, _, hreference =>
      List.mem_append_left _ (name_mem_image operand hreference)
  | .grouping inner _, _, hreference => name_mem_image inner hreference
  | .conversion .int value _, _, hreference => name_mem_image value hreference
  | .conversion .float value _, _, hreference => name_mem_image value hreference
  | .call callee arguments _, _, hreference => by
      rcases List.mem_cons.1 hreference with rfl | hreference
      · exact List.mem_cons_self
      · exact List.mem_cons_of_mem _ (name_mem_imageAll arguments hreference)
  | .next coroutine _, _, hreference =>
      List.mem_append_left _ (name_mem_image coroutine hreference)
  | .create callee arguments _ _, _, hreference => by
      rcases List.mem_cons.1 hreference with rfl | hreference
      · exact List.mem_cons_self
      · exact List.mem_cons_of_mem _ (name_mem_imageAll arguments hreference)

theorem name_mem_imageAll : ∀ (trees : List Expr) {reference : Reference},
    reference ∈ referencesAll trees → reference.name ∈ Cpp.Term.namesAll (imageAll trees)
  | [], _, hreference => by contradiction
  | first :: others, _, hreference => by
      rcases List.mem_append.1 hreference with hreference | hreference
      · exact List.mem_append_left _ (name_mem_image first hreference)
      · exact List.mem_append_right _ (name_mem_imageAll others hreference)

end

theorem resumesNumber_next {coroutine : Expr} {span : Span}
    (hnext : (next coroutine span).resumesNumber = false) :
    (∀ text span, coroutine ≠ .number text span) ∧ coroutine.resumesNumber = false := by
  cases coroutine <;> simp_all [resumesNumber]

end Expr

namespace Emit

def levelOf : Nat → Nat
  | 1 => 11
  | 2 => 10
  | 3 => 6
  | 4 => 5
  | 5 => 4
  | 6 => 3
  | 7 => 2
  | _ => 0

def level : Expr → Nat
  | .binary _ operator _ _ => levelOf (precedence operator.kind)
  | .unary _ _ _ => 1
  | _ => 0

def takesMember : Expr → Bool
  | .number _ _ | .unary _ _ _ | .binary _ _ _ _ => false
  | _ => true

/-- The text of an expression is read as what the expression means. -/
def Keeps (tree : Expr) : Prop :=
  Cpp.Legible (takesMember tree) (level tree) (exprText tree).toList tree.image

theorem levelOf_le (precedence : Nat) : levelOf precedence ≤ Cpp.loosest := by
  unfold levelOf
  split <;> decide

theorem level_le (tree : Expr) : level tree ≤ Cpp.loosest := by
  cases tree with
  | binary left operator right span => exact levelOf_le _
  | unary operator operand span => exact (by decide : 1 ≤ Cpp.loosest)
  | _ => exact Nat.zero_le _

theorem levelOf_anti {low high : Nat} (hlow : 1 ≤ low ∧ low ≤ 7) (hhigh : low ≤ high) :
    levelOf high ≤ levelOf low ∧ (low < high → levelOf high < levelOf low) ∧
      2 ≤ levelOf low := by
  have hsmall : ∀ high ∈ List.range 8, ∀ low ∈ List.range 8, 1 ≤ low → low ≤ high →
      levelOf high ≤ levelOf low ∧ (low < high → levelOf high < levelOf low) ∧
        2 ≤ levelOf low := by
    decide
  by_cases hbound : high < 8
  · exact hsmall high (List.mem_range.2 hbound) low (List.mem_range.2 (by omega)) hlow.1 hhigh
  · have hzero : levelOf high = 0 := by
      unfold levelOf
      split <;> omega
    have hrange : low ∈ List.range 8 := List.mem_range.2 (by omega)
    have htwo := (hsmall low hrange low hrange hlow.1 (Nat.le_refl low)).2.2
    exact ⟨by omega, fun _ => by omega, htwo⟩

/-! Operands have their parentheses where their own operators hold too loosely. -/

theorem toList_inParens (code : String) : (inParens code).toList = '(' :: code.toList ++ [')'] := by
  simp [inParens]

theorem level_lt_of_needsParens {tree : Expr} {low : Nat} {side : Side}
    (hlow : 1 ≤ low ∧ low ≤ 7) (hparens : needsParens tree low side = false) :
    level tree ≤ levelOf low ∧ (side = .right → level tree < levelOf low) := by
  have htwo := (levelOf_anti hlow (Nat.le_refl low)).2.2
  cases tree with
  | binary left operator right span =>
      simp only [needsParens, Bool.or_eq_false_iff, decide_eq_false_iff_not, Nat.not_lt,
        Bool.and_eq_false_iff] at hparens
      obtain ⟨hle, hright⟩ := hparens
      obtain ⟨hlevel, hlt, -⟩ := levelOf_anti hlow hle
      refine ⟨hlevel, fun hside => hlt ?_⟩
      rcases hright with hother | hne
      · contradiction
      · omega
  | unary operator operand span => exact ⟨by simp only [level]; omega, fun _ => htwo⟩
  | _ => exact ⟨Nat.zero_le _, fun _ => by simp only [level]; omega⟩

theorem Keeps.left {tree : Expr} (htree : Keeps tree) (low : Nat) (hlow : 1 ≤ low ∧ low ≤ 7) :
    Cpp.Legible false (levelOf low) (operand tree low .left (exprText tree)).toList
      tree.image := by
  unfold operand
  cases hparens : needsParens tree low .left with
  | true =>
      rw [if_pos rfl, toList_inParens]
      exact (htree.parens (level_le tree)).undotted.loosen (Nat.zero_le _)
  | false => exact htree.undotted.loosen (level_lt_of_needsParens hlow hparens).1

theorem Keeps.right {tree : Expr} (htree : Keeps tree) (low : Nat) {tighter : Nat}
    (hlow : 1 ≤ low ∧ low ≤ 7) (hlevel : levelOf low = tighter + 1) :
    Cpp.Legible false tighter (operand tree low .right (exprText tree)).toList tree.image := by
  unfold operand
  cases hparens : needsParens tree low .right with
  | true =>
      rw [if_pos rfl, toList_inParens]
      exact (htree.parens (level_le tree)).undotted.loosen (Nat.zero_le _)
  | false =>
      have hlt := (level_lt_of_needsParens hlow hparens).2 rfl
      exact htree.undotted.loosen (by omega)

/-! One lemma for each kind of expression. -/

section Kinds

attribute [local simp] Keeps level takesMember exprText Expr.image

theorem keeps_symbol {name : String} {span : Span}
    (hwrites : TokenKind.identifier.Writes name.toList) (hname : name ∉ Cpp.keywords) :
    Keeps (.symbol name span) := by
  obtain ⟨first, tail, hlist, hfirst, htail⟩ := hwrites
  have heq : name = .ofList (first :: tail) := by rw [← hlist, String.ofList_toList]
  have hparts : ∀ part ∈ tail, Cpp.isWordPart part = true := by
    intro part hpart
    simpa [Cpp.isWordPart, Cpp.isLetter, Lexeme.isWordPart, or_right_comm] using htail part hpart
  have hword := Cpp.Legible.ofWord hfirst hparts (heq ▸ hname)
  rw [← heq, ← hlist] at hword
  exact hword

theorem keeps_number {text : String} {span : Span}
    (hwrites : TokenKind.number.Writes text.toList) : Keeps (.number text span) := by
  obtain ⟨first, tail, hlist, hfirst, htail⟩ := hwrites
  have heq : text = .ofList (first :: tail) := by rw [← hlist, String.ofList_toList]
  have hnumber := Cpp.Legible.ofNumber hfirst htail
  rw [← heq, ← hlist] at hnumber
  exact hnumber

theorem keeps_string (bytes : List UInt8) (span : Span) : Keeps (.string bytes span) :=
  .ofBytes bytes

theorem Keeps.grouping {inner : Expr} (hinner : Keeps inner) (span : Span) :
    Keeps (.grouping inner span) := by
  have hparens := hinner.parens (level_le inner)
  rw [← toList_inParens] at hparens
  exact hparens

theorem Keeps.conversion {value : Expr} (hvalue : Keeps value) (target : NumericType)
    (span : Span) : Keeps (.conversion target value span) := by
  have hinner := hvalue.loosen (level_le value)
  cases target with
  | int =>
      have hcast : Cpp.Legible true 0 _ (.cast "int" value.image) := hinner.cast (by decide)
      simpa [typeText, inParens] using hcast
  | float =>
      have hcast : Cpp.Legible true 0 _ (.cast "double" value.image) := hinner.cast (by decide)
      simpa [typeText, inParens] using hcast

theorem Keeps.percent {inner : Expr} (hinner : Keeps inner) (span : Span) :
    Keeps (.percent inner span) := by
  have hhundredth := (hinner.left 7 (by decide)).hundredth
  have hparens := hhundredth.parens (by decide)
  simpa [precedence] using hparens

theorem Keeps.unary {operand : Expr} {operator : Token} (hoperand : Keeps operand)
    (hvalue : operator.value ∈ ["+", "-", "!"]) (span : Span) :
    Keeps (.unary operator operand span) := by
  have hparens := (hoperand.parens (level_le operand)).undotted.sign hvalue
  cases operand with
  | unary _ _ _ | binary _ _ _ _ =>
      simpa [unaryText, inParens] using hparens
  | _ =>
      have hsign := hoperand.undotted.sign hvalue
      simpa [unaryText] using hsign

theorem Keeps.next {coroutine : Expr} (hcoroutine : Keeps coroutine)
    (hnumber : ∀ text span, coroutine ≠ .number text span) (span : Span) :
    Keeps (.next coroutine span) := by
  have hparens := (hcoroutine.parens (level_le coroutine)).next
  cases coroutine with
  | number text span => exact absurd rfl (hnumber text span)
  | unary _ _ _ | percent _ _ | binary _ _ _ _ =>
      simpa [nextText, inParens] using hparens
  | _ =>
      have hnext := Cpp.Legible.next hcoroutine
      simpa [nextText] using hnext

theorem operator_facts {stratum : Stratum} {kind : TokenKind} {value : String}
    (hkind : kind ∈ stratum.operators) (hwrites : kind.Writes value.toList) :
    value ∈ ["*", "/", "+", "-", "<", "<=", ">", ">=", "==", "!=", "&&", "||"] ∧
      kind ≠ .caret ∧ kind ≠ .percent ∧ (1 ≤ precedence kind ∧ precedence kind ≤ 7) ∧
      ∃ level, levelOf (precedence kind) = level + 2 ∧ value ∈ Cpp.operators (level + 2) := by
  cases stratum <;>
    simp only [Stratum.operators, List.mem_cons, List.not_mem_nil, or_false] at hkind
  case' product => rcases hkind with rfl | rfl
  case' sum => rcases hkind with rfl | rfl
  case' comparison => rcases hkind with rfl | rfl | rfl | rfl | rfl | rfl
  case' logical => rcases hkind with rfl | rfl
  all_goals
    obtain rfl := String.toList_inj.1 (hwrites _ rfl)
    exact ⟨by decide, by decide, by decide, by decide, _, rfl, by decide⟩

theorem Keeps.binary {left right : Expr} {operator : Token} {stratum : Stratum}
    (hleft : Keeps left) (hkind : operator.kind ∈ stratum.operators) (hfits : operator.Fits)
    (hright : Keeps right) (span : Span) : Keeps (.binary left operator right span) := by
  obtain ⟨hvalue, hcaret, hpercent, hprecedence, tighter, hlevel, hmember⟩ :=
    operator_facts hkind hfits
  have hleftText := hleft.left _ hprecedence
  have hrightText := hright.right _ hprecedence hlevel
  rw [hlevel] at hleftText
  have hoperator := hleftText.operator hvalue hmember hrightText
  have htext : exprText (.binary left operator right span) =
      operand left (precedence operator.kind) .left (exprText left) ++ " " ++ operator.value ++
        " " ++ operand right (precedence operator.kind) .right (exprText right) := by
    rw [exprText, binaryText]
    split <;> first | contradiction | rfl
  have himage : (Expr.binary left operator right span).image =
      .binary operator.value left.image right.image := by
    rw [Expr.image]
    split <;> first | contradiction | rfl
  rw [Keeps, htext, himage, level, hlevel, takesMember]
  simpa using hoperator

theorem Keeps.percentOf {left right : Expr} {operator : Token} (hleft : Keeps left)
    (hkind : operator.kind = .percent) (hlevel : level right ≤ 2) (hright : Keeps right)
    (span : Span) : Keeps (.binary left operator right span) := by
  have hleftText := hleft.left 7 (by decide)
  -- The right operand gets no parentheses of its own, and needs none on this level.
  have hhundredth := ((hright.loosen hlevel).hundredth.parens (by decide)).loosen (Nat.zero_le 1)
  have hoperator : Cpp.Legible false 2 _ (.binary "*" _ _) :=
    .operator (by decide) (by decide) hleftText hhundredth
  simpa [binaryText, hkind, precedence, levelOf] using hoperator

theorem Keeps.exponent {left right : Expr} {operator : Token} (hleft : Keeps left)
    (hkind : operator.kind = .caret) (hright : Keeps right) (span : Span) :
    Keeps (.binary left operator right span) := by
  obtain ⟨⟨leftWords, hleftWords, hleftTerm⟩, -⟩ := hleft.loosen (level_le left)
  obtain ⟨⟨rightWords, hrightWords, hrightTerm⟩, -⟩ := hright.loosen (level_le right)
  have hcall := Cpp.Legible.ofPow.call (hleftWords.comma hrightWords)
    (.items (.cons hleftTerm (.last hrightTerm)))
  simpa [binaryText, hkind, precedence, levelOf] using hcall.undotted

end Kinds

def KeepsAll (trees : List Expr) : Prop :=
  ∃ words, Cpp.LexesAs false (", ".intercalate (exprTexts trees)).toList words ∧
    Cpp.Arguments (Expr.imageAll trees) (.mark "(" :: words ++ [.mark ")"])

theorem KeepsAll.call {callee : String} {trees : List Expr}
    (hwrites : TokenKind.identifier.Writes callee.toList) (hname : callee ∉ Cpp.keywords)
    (htrees : KeepsAll trees) :
    Cpp.Legible true 0 (callText callee (exprTexts trees)).toList
      (.call (.name callee) (Expr.imageAll trees)) := by
  obtain ⟨words, hwords, harguments⟩ := htrees
  have hcallee : Keeps (.symbol callee default) := keeps_symbol hwrites hname
  have hcall := hcallee.call hwords harguments
  simpa [callText, exprText, Expr.image] using hcall

def KeepsSeparated (trees : List Expr) : Prop :=
  ∃ words, Cpp.LexesAs false (", ".intercalate (exprTexts trees)).toList words ∧
    Cpp.Separated (Expr.imageAll trees) words

theorem KeepsSeparated.last {tree : Expr} (htree : Keeps tree) : KeepsSeparated [tree] := by
  obtain ⟨⟨words, hwords, hterm⟩, -⟩ := htree.loosen (level_le tree)
  exact ⟨words, hwords.undotted, .last hterm⟩

theorem KeepsSeparated.cons {tree : Expr} {trees : List Expr} (htree : Keeps tree)
    (htrees : KeepsSeparated trees) (hne : trees ≠ []) : KeepsSeparated (tree :: trees) := by
  obtain ⟨⟨words, hwords, hterm⟩, -⟩ := htree.loosen (level_le tree)
  obtain ⟨others, hothers, hterms⟩ := htrees
  refine ⟨_, ?_, .cons hterm hterms⟩
  have hcomma := hwords.comma hothers
  cases trees with
  | nil => contradiction
  | cons next more => simpa [exprTexts, String.toList_intercalate] using hcomma

theorem sign_value {sign : Token} (hsign : sign.kind ∈ TokenKind.signs) (hfits : sign.Fits) :
    sign.value ∈ ["+", "-", "!"] := by
  obtain ⟨kind, value, span⟩ := sign
  simp only [TokenKind.signs, List.mem_cons, List.not_mem_nil, or_false] at hsign
  rcases hsign with rfl | rfl | rfl
  all_goals
    obtain rfl := String.toList_inj.1 (hfits _ rfl)
    simp

theorem level_le_one : ∀ {stratum : Stratum} {tree : Expr} {words : List Token},
    Spells stratum tree words → stratum.rank ≤ Stratum.exponential.rank → level tree ≤ 1
  | _, _, _, .number _ _, _ | _, _, _, .symbol _ _, _ | _, _, _, .string _ _, _
  | _, _, _, .grouping _ _ _ _, _ | _, _, _, .conversion _ _ _ _ _, _
  | _, _, _, .call _ _ _, _ | _, _, _, .percent _ _ _, _ | _, _, _, .next _ _ _, _
  | _, _, _, .create _ _ _, _ => Nat.zero_le 1
  | _, _, _, .unary _ _ _ _, _ => Nat.le_refl 1
  | _, _, _, .exponent _ hsign hsame _ _, _ => by
      -- A power comes out as a call.
      rw [level, ← hsame.1, hsign]
      decide
  | _, _, _, .percentOf _ _ _ _ _ _, hstratum => absurd hstratum (by decide)
  | stratum, _, _, .binary _ hsign _ _ _, hstratum => by
      cases stratum <;> contradiction
  | _, _, _, .tighter _ htree, hstratum =>
      level_le_one htree (by rw [Stratum.rank_tighter]; omega)

mutual

theorem keeps_of_spells : ∀ {stratum : Stratum} {tree : Expr} {words : List Token},
    Spells stratum tree words → (∀ word ∈ words, word.Fits) →
    (∀ reference ∈ tree.references, reference.name ∉ Cpp.keywords) →
    tree.resumesNumber = false → Keeps tree
  | _, _, _, .number _ hword, hfits, _, _ => by
      have hwrites := hfits _ List.mem_cons_self
      rw [Token.Fits, hword] at hwrites
      exact keeps_number hwrites
  | _, _, _, .symbol _ hword, hfits, hnames, _ => by
      have hwrites := hfits _ List.mem_cons_self
      rw [Token.Fits, hword] at hwrites
      exact keeps_symbol hwrites (hnames _ List.mem_cons_self)
  | _, _, _, .string _ _, _, _, _ => keeps_string _ _
  | _, _, _, .grouping span _ hinner _, hfits, hnames, hnext =>
      (keeps_of_spells hinner (fun word hword => hfits word (by simp [hword])) hnames
        hnext).grouping span
  | _, _, _, .conversion span _ _ hvalue _, hfits, hnames, hnext =>
      (keeps_of_spells hvalue (fun word hword => hfits word (by simp [hword])) hnames
        hnext).conversion _ span
  | _, _, _, .call _ hcallee harguments, hfits, hnames, hnext => by
      have hwrites := hfits _ List.mem_cons_self
      rw [Token.Fits, hcallee] at hwrites
      rw [Expr.references, List.forall_mem_cons] at hnames
      exact (keepsAll_of_spells harguments (fun word hword => hfits word (by simp [hword])) hnames.2
        hnext).call hwrites hnames.1
  | _, _, _, .percent span hoperand _, hfits, hnames, hnext =>
      (keeps_of_spells hoperand (fun word hword => hfits word (by simp [hword])) hnames
        hnext).percent span
  | _, _, _, .unary span hsign hsame hoperand, hfits, hnames, hnext => by
      have hvalue := sign_value hsign (hfits _ List.mem_cons_self)
      rw [hsame.2] at hvalue
      exact (keeps_of_spells hoperand (fun word hword => hfits word (by simp [hword])) hnames
        hnext).unary hvalue span
  | _, _, _, .next span _ hcoroutine, hfits, hnames, hnext => by
      obtain ⟨hnumber, hnext⟩ := Expr.resumesNumber_next hnext
      exact (keeps_of_spells hcoroutine (fun word hword => hfits word (by simp [hword])) hnames
        hnext).next hnumber span
  | _, _, _, .create _ _ hcall, hfits, hnames, hnext => by
      have hkeeps := keeps_of_spells hcall (fun word hword => hfits word (by simp [hword])) hnames
        hnext
      exact hkeeps
  | _, _, _, .exponent span hsign hsame hleft hright, hfits, hnames, hnext => by
      rw [Expr.references, List.forall_mem_append] at hnames
      rw [Expr.resumesNumber, Bool.or_eq_false_iff] at hnext
      have hleft := keeps_of_spells hleft (fun word hword => hfits word (by simp [hword])) hnames.1
        hnext.1
      have hright := keeps_of_spells hright (fun word hword => hfits word (by simp [hword]))
        hnames.2 hnext.2
      exact hleft.exponent (hsame.1 ▸ hsign) hright span
  | _, _, _, .percentOf span hsign hsame hleft hright _, hfits, hnames, hnext => by
      have hlevel := level_le_one hright (Nat.le_refl _)
      rw [Expr.references, List.forall_mem_append] at hnames
      rw [Expr.resumesNumber, Bool.or_eq_false_iff] at hnext
      have hleft := keeps_of_spells hleft (fun word hword => hfits word (by simp [hword])) hnames.1
        hnext.1
      have hright := keeps_of_spells hright (fun word hword => hfits word (by simp [hword]))
        hnames.2 hnext.2
      exact hleft.percentOf (hsame.1 ▸ hsign) (Nat.le_succ_of_le hlevel) hright span
  | _, _, _, .binary span hsign hsame hleft hright, hfits, hnames, hnext => by
      rw [Expr.references, List.forall_mem_append] at hnames
      rw [Expr.resumesNumber, Bool.or_eq_false_iff] at hnext
      have hoperator := hsame.fits (hfits _ (by simp))
      have hleft := keeps_of_spells hleft (fun word hword => hfits word (by simp [hword])) hnames.1
        hnext.1
      have hright := keeps_of_spells hright (fun word hword => hfits word (by simp [hword]))
        hnames.2 hnext.2
      exact hleft.binary (hsame.1 ▸ hsign) hoperator hright span
  | _, _, _, .tighter _ htree, hfits, hnames, hnext => keeps_of_spells htree hfits hnames hnext

theorem keepsAll_of_spells : ∀ {trees : List Expr} {words : List Token},
    SpellsArguments trees words → (∀ word ∈ words, word.Fits) →
    (∀ reference ∈ Expr.referencesAll trees, reference.name ∉ Cpp.keywords) →
    Expr.resumesNumberAny trees = false → KeepsAll trees
  | _, _, .empty _ _, _, _, _ => ⟨[], Cpp.lexesAs_nil, .empty⟩
  | _, _, .items _ harguments _, hfits, hnames, hnext => by
      obtain ⟨⟨words, hwords, hterms⟩, -⟩ := keepsSeparated_of_spells harguments
        (fun word hword => hfits word (by simp [hword])) hnames hnext
      exact ⟨words, hwords, .items hterms⟩

theorem keepsSeparated_of_spells : ∀ {trees : List Expr} {words : List Token},
    SpellsSeparated trees words → (∀ word ∈ words, word.Fits) →
    (∀ reference ∈ Expr.referencesAll trees, reference.name ∉ Cpp.keywords) →
    Expr.resumesNumberAny trees = false → KeepsSeparated trees ∧ trees ≠ []
  | _, _, .last htree, hfits, hnames, hnext => by
      rw [Expr.referencesAll, List.forall_mem_append] at hnames
      rw [Expr.resumesNumberAny, Bool.or_eq_false_iff] at hnext
      exact ⟨.last (keeps_of_spells htree hfits hnames.1 hnext.1), by simp⟩
  | _, _, .cons htree _ htrees, hfits, hnames, hnext => by
      rw [Expr.referencesAll, List.forall_mem_append] at hnames
      rw [Expr.resumesNumberAny, Bool.or_eq_false_iff] at hnext
      have htree := keeps_of_spells htree (fun word hword => hfits word (by simp [hword]))
        hnames.1 hnext.1
      obtain ⟨htrees, hne⟩ := keepsSeparated_of_spells htrees
        (fun word hword => hfits word (by simp [hword])) hnames.2 hnext.2
      exact ⟨.cons htree htrees hne, by simp⟩

end

/-- The text of an expression that a source holds is read as what the expression
means, and as nothing else, exactly if none of its names is a reserved word of the
output language. -/
theorem expr_reads_as_image_iff {source file : String} {tokens : List Token}
    {cursor after : Cursor} {power : Power} {tree : Expr} {names : Names}
    (hscan : Token.scan source file = .ok tokens) (hcursor : cursor.tokens <:+ tokens)
    (hread : Grammar.standard.expr power cursor = (.ok tree, after))
    (hnext : tree.resumesNumber = false)
    (hnames : ∀ reference ∈ tree.references, names.Resolves reference) :
    ∃ text, expr names tree = .ok text ∧
      ((∀ term, Cpp.Reads text term ↔ term = tree.image) ↔
        ∀ reference ∈ tree.references, reference.name ∉ Cpp.keywords) := by
  refine ⟨exprText tree, (expr_eq_ok_iff tree).2 ⟨hnames, rfl⟩, ?_, ?_⟩
  · -- No reserved word is a name in the output, and every name of the tree stands in its image.
    intro hreads reference hreference
    have himage : Cpp.Reads (exprText tree) tree.image := (hreads tree.image).2 rfl
    exact himage.name_not_keyword (tree.name_mem_image hreference)
  · intro hkeywords
    have hended : cursor.Ended := by
      obtain ⟨position, hlast⟩ := Token.getLast?_scan hscan
      obtain ⟨before, htokens⟩ := hcursor
      exact Cursor.ended_of_getLast? hlast rfl htokens.symm
    obtain ⟨words, hwords, hspells, -⟩ := Grammar.faithful_expr hended hread
    have hfits : ∀ word ∈ words, word.Fits := by
      intro word hword
      refine Token.fits_of_mem_scan hscan (hcursor.mem ?_)
      rw [hwords]
      exact List.mem_append_left _ hword
    have hkeeps := keeps_of_spells hspells hfits hkeywords hnext
    have hreads : Cpp.Reads (exprText tree) tree.image := (hkeeps.loosen (level_le tree)).reads
    intro term
    constructor
    · exact fun hterm => hterm.unique hreads
    · rintro rfl
      exact hreads

theorem expr_reads_as_image_iff_nested :
    ∃ tokens after tree,
      Token.scan "a - -b * (c && d) ^ 2" "shell" = .ok tokens ∧
        Grammar.standard.expr .lowest (.ofTokens tokens "shell") = (.ok tree, after) ∧
        tree.resumesNumber = false ∧
        (∀ reference ∈ tree.references,
          Names.Resolves ⟨⟨[], ["d", "c", "b", "a"]⟩, .empty⟩ reference) ∧
        ∃ text, expr ⟨⟨[], ["d", "c", "b", "a"]⟩, .empty⟩ tree = .ok text ∧
          ((∀ term, Cpp.Reads text term ↔ term = tree.image) ↔
            ∀ reference ∈ tree.references, reference.name ∉ Cpp.keywords) := by
  obtain ⟨tokens, hscan, htokens⟩ : ∃ tokens,
      Token.scan "a - -b * (c && d) ^ 2" "shell" = .ok tokens ∧ tokens =
        [⟨.identifier, "a", .ofOffset 0 1 "shell"⟩, ⟨.dash, "-", .ofOffset 2 1 "shell"⟩,
          ⟨.dash, "-", .ofOffset 4 1 "shell"⟩, ⟨.identifier, "b", .ofOffset 5 1 "shell"⟩,
          ⟨.star, "*", .ofOffset 7 1 "shell"⟩, ⟨.openParen, "(", .ofOffset 9 1 "shell"⟩,
          ⟨.identifier, "c", .ofOffset 10 1 "shell"⟩, ⟨.and, "&&", .ofOffset 12 2 "shell"⟩,
          ⟨.identifier, "d", .ofOffset 15 1 "shell"⟩, ⟨.closeParen, ")", .ofOffset 16 1 "shell"⟩,
          ⟨.caret, "^", .ofOffset 18 1 "shell"⟩, ⟨.number, "2", .ofOffset 20 1 "shell"⟩,
          .endMark (.ofOffset 21 "shell")] :=
    ⟨_, by cbv, rfl⟩
  have hcursor : (Cursor.ofTokens tokens "shell").tokens <:+ tokens := by
    subst htokens
    exact List.suffix_refl _
  obtain ⟨tree, after, hread, hnext, hnames⟩ : ∃ tree after,
      Grammar.standard.expr .lowest (.ofTokens tokens "shell") = (.ok tree, after) ∧
        tree.resumesNumber = false ∧ ∀ reference ∈ tree.references,
          Names.Resolves ⟨⟨[], ["d", "c", "b", "a"]⟩, .empty⟩ reference := by
    subst htokens
    exact ⟨_, _, rfl, by decide, by decide⟩
  exact ⟨tokens, after, tree, hscan, hread, hnext, hnames,
    expr_reads_as_image_iff hscan hcursor hread hnext hnames⟩

/-- Names that are reserved words can make the text mean something else: here a
comparison of three variables comes out as a conversion. -/
theorem reserved_names_read_as_cast :
    ∃ tokens after tree,
      Token.scan "static_cast < double > (x)" "shell" = .ok tokens ∧
        Grammar.standard.expr .lowest (.ofTokens tokens "shell") = (.ok tree, after) ∧
        tree.resumesNumber = false ∧
        expr ⟨⟨[], ["x", "double", "static_cast"]⟩, .empty⟩ tree =
          .ok "static_cast < double > (x)" ∧
        Cpp.Reads "static_cast < double > (x)" (.cast "double" (.name "x")) ∧
        ¬ Cpp.Reads "static_cast < double > (x)" tree.image := by
  have hscan : Token.scan "static_cast < double > (x)" "shell" =
      .ok [⟨.identifier, "static_cast", .ofOffset 0 11 "shell"⟩,
        ⟨.less, "<", .ofOffset 12 1 "shell"⟩, ⟨.identifier, "double", .ofOffset 14 6 "shell"⟩,
        ⟨.greater, ">", .ofOffset 21 1 "shell"⟩, ⟨.openParen, "(", .ofOffset 23 1 "shell"⟩,
        ⟨.identifier, "x", .ofOffset 24 1 "shell"⟩, ⟨.closeParen, ")", .ofOffset 25 1 "shell"⟩,
        .endMark (.ofOffset 26 "shell")] := by
    cbv
  have hcast : Cpp.Reads "static_cast < double > (x)" (.cast "double" (.name "x")) := by
    have hname := (Cpp.Primary.name "x").derives.loosen (Nat.zero_le Cpp.loosest)
    have hterm : Cpp.Derives Cpp.loosest (.cast "double" (.name "x")) _ :=
      (Cpp.Primary.cast hname).derives.loosen (Nat.zero_le _)
    refine ⟨_, ?_, hterm⟩
    exact .word rfl (.blank rfl (.word rfl (.blank rfl (.word rfl (.blank rfl (.word rfl
      (.blank rfl (.word rfl (.word rfl (.word rfl .nil))))))))))
  refine ⟨_, _, _, hscan, rfl, ?_, ?_, hcast, ?_⟩
  · rfl
  · cbv
  · intro himage
    have hsame := himage.unique hcast
    contradiction

end Emit

end Coroscript
