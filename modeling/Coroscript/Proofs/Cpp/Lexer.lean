import Coroscript.Cpp.Literal
import Coroscript.Proofs.Cpp.Grammar

namespace Coroscript.Cpp

/-! Cutting output text into words. Each word is the longest one that begins where
the text before it ends. -/

/-- The reserved words of C++17, those that stand for operators included. -/
def keywords : List String :=
  ["alignas", "alignof", "and", "and_eq", "asm", "auto", "bitand", "bitor", "bool", "break",
    "case", "catch", "char", "char16_t", "char32_t", "class", "compl", "const", "const_cast",
    "constexpr", "continue", "decltype", "default", "delete", "do", "double", "dynamic_cast",
    "else", "enum", "explicit", "export", "extern", "false", "float", "for", "friend", "goto",
    "if", "inline", "int", "long", "mutable", "namespace", "new", "noexcept", "not", "not_eq",
    "nullptr", "operator", "or", "or_eq", "private", "protected", "public", "register",
    "reinterpret_cast", "return", "short", "signed", "sizeof", "static", "static_assert",
    "static_cast", "struct", "switch", "template", "this", "thread_local", "throw", "true",
    "try", "typedef", "typeid", "typename", "union", "unsigned", "using", "virtual", "void",
    "volatile", "wchar_t", "while", "xor", "xor_eq"]

/-- The operators and punctuation marks, the longer ones first. What opens a comment
counts among them; no expression holds one. -/
def marks : List String :=
  ["%:%:", "...", "<<=", ">>=", "->*", "<:", ":>", "<%", "%>", "%:", "##", "::", ".*", "->",
    "++", "--", "+=", "-=", "*=", "/=", "%=", "^=", "&=", "|=", "==", "!=", "<=", ">=", "&&",
    "||", "<<", ">>", "//", "/*", "\x7b", "\x7d", "[", "]", "#", "(", ")", ";", ":", "?", ".",
    "~", "!", "+", "-", "*", "/", "%", "^", "&", "|", "=", "<", ">", ","]

def isLetter (c : Char) : Bool :=
  c.isAlpha || c == '_'

def isWordPart (c : Char) : Bool :=
  isLetter c || c.isDigit

def Word.ofText (text : String) : Word :=
  if text ∈ keywords then .keyword text else .name text

/-- Splits off the part of a number that goes on behind `previous`: digits, letters
and points, and a sign behind the letter of an exponent. -/
def numberPart (previous : Char) : List Char → List Char × List Char
  | [] => ([], [])
  | c :: rest =>
      if isWordPart c || c == '.' || (c == '+' || c == '-') && previous ∈ ['e', 'E', 'p', 'P'] then
        (c :: (numberPart c rest).1, (numberPart c rest).2)
      else ([], c :: rest)

/-- Splits the text behind an opening quote at the quote that closes it. A backslash
takes the character after it along. -/
def literalPart? : List Char → Option (List Char × List Char)
  | [] => none
  | '"' :: rest => some ([], rest)
  | '\\' :: c :: rest => (literalPart? rest).map fun (part, after) => ('\\' :: c :: part, after)
  | c :: rest =>
      if c == '\n' then none
      else (literalPart? rest).map fun (part, after) => (c :: part, after)

/-- The word at the start of a text. A word of letters that touches a string literal
is a part of it; such literals are left out. -/
def next? : List Char → Option (Word × List Char)
  | [] => none
  | c :: rest =>
      if isLetter c then
        if (rest.dropWhile isWordPart).head? = some '"' then none
        else
          some (.ofText (.ofList (c :: rest.takeWhile isWordPart)), rest.dropWhile isWordPart)
      else if c.isDigit || c == '.' && rest.head?.any Char.isDigit then
        some (.number (.ofList (c :: (numberPart c rest).1)), (numberPart c rest).2)
      else if c == '"' then
        match literalPart? rest with
        | none => none
        | some (part, after) =>
            if after.head?.any isLetter then none else some (.string (.ofList part), after)
      else
        (marks.find? fun mark => mark.toList.isPrefixOf (c :: rest)).map fun mark =>
          (.mark mark, (c :: rest).drop mark.toList.length)

inductive Lexes : List Char → List Word → Prop
  | nil : Lexes [] []
  | blank {c : Char} {rest : List Char} {words : List Word} (hblank : c.isWhitespace = true)
      (hrest : Lexes rest words) : Lexes (c :: rest) words
  | word {text rest : List Char} {word : Word} {words : List Word}
      (hword : next? text = some (word, rest)) (hrest : Lexes rest words) :
      Lexes text (word :: words)

/-- `Reads text term`: the whole text is an expression, and groups as `term`. -/
def Reads (text : String) (term : Term) : Prop :=
  ∃ words, Lexes text.toList words ∧ Derives loosest term words

theorem next?_blank {c : Char} {rest : List Char} (hblank : c.isWhitespace = true) :
    next? (c :: rest) = none := by
  simp only [Char.isWhitespace, Bool.or_eq_true, decide_eq_true_eq] at hblank
  rcases hblank with ((rfl | rfl) | rfl) | rfl <;> rfl

theorem Lexes.unique {text : List Char} {words others : List Word} (hwords : Lexes text words)
    (hothers : Lexes text others) : words = others := by
  induction hwords generalizing others with
  | nil =>
      cases hothers with
      | nil => rfl
      | word hword _ => simp [next?] at hword
  | blank hblank _ ih =>
      cases hothers with
      | blank _ hrest => exact ih hrest
      | word hword _ => simp [next?_blank hblank] at hword
  | word hword _ ih =>
      cases hothers with
      | nil => simp [next?] at hword
      | blank hblank _ => simp [next?_blank hblank] at hword
      | word hother hrest =>
          rw [hword, Option.some.injEq, Prod.mk.injEq] at hother
          obtain ⟨rfl, rfl⟩ := hother
          rw [ih hrest]

theorem Reads.unique {text : String} {left right : Term} (hleft : Reads text left)
    (hright : Reads text right) : left = right := by
  obtain ⟨words, hwords, hleft⟩ := hleft
  obtain ⟨others, hothers, hright⟩ := hright
  have hsame := hwords.unique hothers
  subst hsame
  have hends : Stops loosest [] := fun word hword => by simp at hword
  exact (hleft.unique hright rfl hends hends).1

/-! Texts that stay apart from what follows them. -/

/-- What may follow the text of an expression. A point may do so only where
`dotted` says it: behind a number it would be a part of it. -/
def Boundary (dotted : Bool) : List Char → Prop
  | [] => True
  | c :: _ => c ∈ [' ', '(', ')', ','] ∨ dotted = true ∧ c = '.'

theorem boundary_of_mem {dotted : Bool} {c : Char} {rest : List Char}
    (hc : c ∈ [' ', '(', ')', ',']) : Boundary dotted (c :: rest) :=
  .inl hc

def LexesAs (dotted : Bool) (text : List Char) (words : List Word) : Prop :=
  ∀ ⦃rest : List Char⦄ ⦃more : List Word⦄, Boundary dotted rest → Lexes rest more →
    Lexes (text ++ rest) (words ++ more)

theorem LexesAs.undotted {dotted : Bool} {text : List Char} {words : List Word}
    (htext : LexesAs dotted text words) : LexesAs false text words := by
  intro rest more hrest hmore
  refine htext ?_ hmore
  cases rest with
  | nil => trivial
  | cons c rest =>
      rcases hrest with hmark | ⟨hdotted, _⟩
      · exact .inl hmark
      · contradiction

theorem LexesAs.lexes {dotted : Bool} {text : List Char} {words : List Word}
    (htext : LexesAs dotted text words) : Lexes text words := by
  have hall : Lexes (text ++ []) (words ++ []) := htext trivial .nil
  rwa [List.append_nil, List.append_nil] at hall

theorem Boundary.ends_word {dotted : Bool} {rest : List Char} (hrest : Boundary dotted rest) :
    rest.takeWhile isWordPart = [] ∧ rest.dropWhile isWordPart = rest ∧
      rest.head? ≠ some '"' ∧ rest.head?.any isLetter = false := by
  cases rest with
  | nil => simp
  | cons c rest =>
      have hc : isWordPart c = false ∧ c ≠ '"' ∧ isLetter c = false := by
        simp only [Boundary, List.mem_cons, List.not_mem_nil, or_false] at hrest
        rcases hrest with (rfl | rfl | rfl | rfl) | ⟨_, rfl⟩ <;> decide
      obtain ⟨hpart, hquote, hletter⟩ := hc
      simp [hpart, hquote, hletter]

theorem lexesAs_word {c : Char} {tail : List Char} (hc : isLetter c = true)
    (htail : ∀ part ∈ tail, isWordPart part = true) :
    LexesAs true (c :: tail) [.ofText (.ofList (c :: tail))] := by
  intro rest more hrest hmore
  obtain ⟨htake, hdrop, hquote, -⟩ := hrest.ends_word
  refine .word ?_ hmore
  rw [List.cons_append, next?, if_pos hc, List.takeWhile_append_of_pos htail,
    List.dropWhile_append_of_pos htail, htake, hdrop, if_neg hquote, List.append_nil]

theorem numberPart_append {previous : Char} {tail rest : List Char}
    (htail : ∀ part ∈ tail, part.isDigit = true ∨ part = '.')
    (hprevious : previous.isDigit = true ∨ previous = '.') (hrest : Boundary false rest) :
    numberPart previous (tail ++ rest) = (tail, rest) := by
  induction tail generalizing previous with
  | nil =>
      cases rest with
      | nil => rfl
      | cons c rest =>
          have hc : isWordPart c = false ∧ c ≠ '.' ∧ c ≠ '+' ∧ c ≠ '-' := by
            simp only [Boundary, List.mem_cons, List.not_mem_nil, or_false] at hrest
            rcases hrest with (rfl | rfl | rfl | rfl) | ⟨hdotted, _⟩
            · decide
            · decide
            · decide
            · decide
            · cases hdotted
          simp [numberPart, hc]
  | cons c tail ih =>
      have hc := htail c List.mem_cons_self
      have hpart : (isWordPart c || c == '.') = true := by
        rcases hc with hdigit | rfl
        · simp [isWordPart, hdigit]
        · decide
      rw [List.cons_append, numberPart, hpart, Bool.true_or, if_pos rfl,
        ih (fun part hpart => htail part (List.mem_cons_of_mem c hpart)) hc]

theorem not_isLetter_of_isDigit {c : Char} (hc : c.isDigit = true) : isLetter c = false := by
  cases hletter : isLetter c with
  | false => rfl
  | true =>
      simp only [Char.isDigit, Bool.and_eq_true, decide_eq_true_eq] at hc
      change ((decide ('A'.val ≤ c.val ∧ c.val ≤ 'Z'.val) ||
        (decide ('a'.val ≤ c.val) && decide (c.val ≤ 'z'.val))) || c == '_') = true at hletter
      simp only [Bool.or_eq_true, Bool.and_eq_true, decide_eq_true_eq, beq_iff_eq] at hletter
      rcases hletter with (⟨hupper, _⟩ | ⟨hlower, _⟩) | rfl
      · exact absurd (UInt32.le_trans hupper hc.2) (by decide)
      · exact absurd (UInt32.le_trans hlower hc.2) (by decide)
      · exact absurd hc.2 (by decide)

theorem lexesAs_number {c : Char} {tail : List Char} (hc : c.isDigit = true)
    (htail : ∀ part ∈ tail, part.isDigit = true ∨ part = '.') :
    LexesAs false (c :: tail) [.number (.ofList (c :: tail))] := by
  intro rest more hrest hmore
  refine .word ?_ hmore
  rw [List.cons_append, next?, not_isLetter_of_isDigit hc]
  simp [hc, numberPart_append htail (.inl hc) hrest]

theorem literalPart?_cons {c : Char} {rest : List Char} (hquote : c ≠ '"')
    (hbackslash : c ≠ '\\') (hline : c ≠ '\n') :
    literalPart? (c :: rest) =
      (literalPart? rest).map fun (part, after) => (c :: part, after) := by
  rw [literalPart?]
  · rw [if_neg (by simpa using hline)]
  · exact hquote
  · exact fun _ _ hc _ => hbackslash hc

theorem ofNat_ne {n : Nat} {c : Char} (hn : n < 0xd800) (hne : n ≠ c.toNat) :
    Char.ofNat n ≠ c := by
  rintro rfl
  apply hne
  have hvalid : n.isValidChar := .inl hn
  rw [Char.ofNat, dif_pos hvalid]
  rfl

theorem literalPart?_literalByte (byte : UInt8) (rest : List Char) :
    literalPart? (literalByte byte ++ rest) =
      (literalPart? rest).map fun (part, after) => (literalByte byte ++ part, after) := by
  have hdigit : ∀ (n : Nat) (tail : List Char), literalPart? (Nat.digitChar n :: tail) =
      (literalPart? tail).map fun (part, after) => (Nat.digitChar n :: part, after) :=
    fun n tail => literalPart?_cons (Nat.digitChar_ne '"' (by decide))
      (Nat.digitChar_ne '\\' (by decide)) (Nat.digitChar_ne '\n' (by decide))
  unfold literalByte
  split
  · rfl
  rename_i hquote
  split
  · rfl
  rename_i hbackslash
  split
  · rfl
  rename_i hline
  split
  · rfl
  split
  · rfl
  split
  · have hbyte : byte.toNat < 0xd800 := Nat.lt_trans byte.toNat_lt (by decide)
    have hne : ∀ other : UInt8, byte ≠ other → byte.toNat ≠ other.toNat :=
      fun other hother heq => hother (UInt8.toNat_inj.1 heq)
    exact literalPart?_cons (ofNat_ne hbyte (hne 0x22 hquote))
      (ofNat_ne hbyte (hne 0x5c hbackslash)) (ofNat_ne hbyte (hne 0x0a hline))
  · simp [literalPart?, octal, hdigit, Function.comp_def]

theorem lexesAs_stringLiteral (bytes : List UInt8) :
    LexesAs true (stringLiteral bytes).toList
      [.string (.ofList (bytes.flatMap literalByte))] := by
  have hpart : ∀ rest : List Char, literalPart? (bytes.flatMap literalByte ++ '"' :: rest) =
      some (bytes.flatMap literalByte, rest) := by
    intro rest
    induction bytes with
    | nil => rfl
    | cons byte bytes ih =>
        rw [List.flatMap_cons, List.append_assoc, literalPart?_literalByte, ih]
        rfl
  intro rest more hrest hmore
  refine .word ?_ hmore
  obtain ⟨-, -, -, hletter⟩ := hrest.ends_word
  simp only [stringLiteral, String.toList_ofList, List.append_assoc, List.cons_append,
    List.nil_append, next?]
  rw [hpart]
  simp [isLetter, hletter]

theorem LexesAs.parens {dotted : Bool} {text : List Char} {words : List Word}
    (htext : LexesAs dotted text words) :
    LexesAs true ('(' :: text ++ [')']) (.mark "(" :: words ++ [.mark ")"]) := by
  -- What follows may be anything: the closing parenthesis is a word of its own.
  intro rest more _ hmore
  have hclosing : Lexes (')' :: rest) (.mark ")" :: more) := .word rfl hmore
  have hinner := htext.undotted (boundary_of_mem (by decide)) hclosing
  simp only [List.cons_append, List.append_assoc, List.nil_append]
  exact .word rfl hinner

def isOperandStart (c : Char) : Bool :=
  isLetter c || c.isDigit || c == '"' || c == '('

theorem LexesAs.sign {dotted : Bool} {c : Char} {text : List Char} {words : List Word}
    {sign : String} (hsign : sign ∈ ["+", "-", "!"]) (hc : isOperandStart c = true)
    (htext : LexesAs dotted (c :: text) words) :
    LexesAs dotted (sign.toList ++ c :: text) (.mark sign :: words) := by
  intro rest more hrest hmore
  have hne : ∀ mark : Char, isOperandStart mark = false → (mark == c) = false := by
    intro mark hmark
    refine beq_false_of_ne fun heq => ?_
    rw [heq, hc] at hmark
    contradiction
  have hword : next? (sign.toList ++ c :: (text ++ rest)) =
      some (.mark sign, c :: (text ++ rest)) := by
    simp only [List.mem_cons, List.not_mem_nil, or_false] at hsign
    rcases hsign with rfl | rfl | rfl
    -- Every longer mark that begins with the sign goes on with one of these characters.
    all_goals
      simp [next?, isLetter, marks, List.isPrefixOf, hne '+' (by decide), hne '-' (by decide),
        hne '=' (by decide), hne '>' (by decide)]
  rw [List.append_assoc]
  exact .word hword (htext hrest hmore)

theorem lexesAs_nil {dotted : Bool} : LexesAs dotted [] [] :=
  fun _ _ _ hmore => hmore

theorem LexesAs.operator {dotted other : Bool} {left right : List Char}
    {leftWords rightWords : List Word} {operator : String}
    (hoperator : operator ∈ ["*", "/", "+", "-", "<", "<=", ">", ">=", "==", "!=", "&&", "||"])
    (hleft : LexesAs dotted left leftWords) (hright : LexesAs other right rightWords) :
    LexesAs other (left ++ ' ' :: operator.toList ++ ' ' :: right)
      (leftWords ++ .mark operator :: rightWords) := by
  intro rest more hrest hmore
  have hword : next? (operator.toList ++ ' ' :: (right ++ rest)) =
      some (.mark operator, ' ' :: (right ++ rest)) := by
    simp only [List.mem_cons, List.not_mem_nil, or_false] at hoperator
    rcases hoperator with rfl | rfl | rfl | rfl | rfl | rfl | rfl | rfl | rfl | rfl | rfl | rfl
    all_goals rfl
  simp only [List.append_assoc, List.cons_append]
  exact hleft (boundary_of_mem (by decide))
    (.blank rfl (.word hword (.blank rfl (hright hrest hmore))))

theorem LexesAs.comma {dotted other : Bool} {left right : List Char}
    {leftWords rightWords : List Word} (hleft : LexesAs dotted left leftWords)
    (hright : LexesAs other right rightWords) :
    LexesAs other (left ++ ',' :: ' ' :: right) (leftWords ++ .mark "," :: rightWords) := by
  intro rest more hrest hmore
  simp only [List.append_assoc, List.cons_append]
  exact hleft (boundary_of_mem (by decide)) (.word rfl (.blank rfl (hright hrest hmore)))

theorem LexesAs.parens_behind {dotted other : Bool} {text inner : List Char}
    {words innerWords : List Word} (htext : LexesAs dotted text words)
    (hinner : LexesAs other inner innerWords) :
    LexesAs true (text ++ ('(' :: inner ++ [')']))
      (words ++ (.mark "(" :: innerWords ++ [.mark ")"])) := by
  intro rest more hrest hmore
  rw [List.append_assoc text, List.append_assoc words]
  exact htext (boundary_of_mem (by decide)) (hinner.parens hrest hmore)

theorem LexesAs.next {text : List Char} {words : List Word} (htext : LexesAs true text words) :
    LexesAs true (text ++ ".next()".toList)
      (words ++ [.mark ".", .name "next", .mark "(", .mark ")"]) := by
  intro rest more _ hmore
  simp only [List.append_assoc]
  exact htext (.inr ⟨rfl, rfl⟩) (.word rfl (.word rfl (.word rfl (.word rfl hmore))))

/-! Names are no reserved words. -/

theorem next?_name {text rest : List Char} {name : String}
    (hnext : next? text = some (.name name, rest)) : name ∉ keywords := by
  cases text with
  | nil => simp [next?] at hnext
  | cons c tail =>
      rw [next?] at hnext
      split at hnext
      · split at hnext
        · contradiction
        simp only [Option.some.injEq, Prod.mk.injEq, Word.ofText] at hnext
        split at hnext
        · simp at hnext
        · rename_i hkeyword
          exact Word.name.inj hnext.1 ▸ hkeyword
      split at hnext
      · simp at hnext
      split at hnext
      · split at hnext
        · contradiction
        split at hnext <;> simp at hnext
      · simp at hnext

theorem Lexes.name_not_keyword {text : List Char} {words : List Word} {name : String}
    (hwords : Lexes text words) (hname : .name name ∈ words) : name ∉ keywords := by
  induction hwords with
  | nil => contradiction
  | blank _ _ ih => exact ih hname
  | word hword _ ih =>
      rcases List.mem_cons.1 hname with rfl | hname
      · exact next?_name hword
      · exact ih hname

theorem Reads.name_not_keyword {text : String} {term : Term} {name : String}
    (hreads : Reads text term) (hname : name ∈ term.names) : name ∉ keywords := by
  obtain ⟨words, hwords, hterm⟩ := hreads
  exact hwords.name_not_keyword (hterm.name_mem hname)

end Coroscript.Cpp
