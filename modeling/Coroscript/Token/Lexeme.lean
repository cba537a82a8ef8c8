import Coroscript.Source.Blank
import Coroscript.Token.Basic

namespace Coroscript

/-! Cutting a text into lexemes. Each lexeme is the longest text of its class
that begins where the one before it ended. -/

/-- What a piece of source text is: a token, or something between tokens. -/
inductive LexemeClass where
  | token (kind : TokenKind)
  | blank
  | comment
deriving DecidableEq, Repr

/-- A piece of source text. -/
structure Lexeme where
  lexClass : LexemeClass
  text : List Char
deriving DecidableEq, Repr

namespace Lexeme

def isWordStart (c : Char) : Bool :=
  c.isAlpha || c == '_'

def isWordPart (c : Char) : Bool :=
  c.isAlpha || c.isDigit || c == '_'

/-- The word that starts with `first` and goes on in `rest`. -/
def word (first : Char) (rest : List Char) : Lexeme × List Char :=
  let text := first :: rest.takeWhile isWordPart
  (⟨.token (.ofWord (.ofList text)), text⟩, rest.dropWhile isWordPart)

/-- The fraction at the start of `rest`: a point and at least one digit. -/
def fraction : List Char → List Char × List Char
  | '.' :: digit :: rest =>
      if digit.isDigit then
        ('.' :: digit :: rest.takeWhile Char.isDigit, rest.dropWhile Char.isDigit)
      else ([], '.' :: digit :: rest)
  | rest => ([], rest)

/-- The number that starts with the digit `first` and goes on in `rest`. -/
def number (first : Char) (rest : List Char) : Lexeme × List Char :=
  let (tail, after) := fraction (rest.dropWhile Char.isDigit)
  (⟨.token .number, first :: rest.takeWhile Char.isDigit ++ tail⟩, after)

def blank (first : Char) (rest : List Char) : Lexeme × List Char :=
  (⟨.blank, first :: rest.takeWhile isBlank⟩, rest.dropWhile isBlank)

/-- Splits the text after an opening quote at the quote that closes it. A
backslash takes the character after it along, but not the end of a line. -/
def closeQuote? : List Char → Option (List Char × List Char)
  | [] => none
  | '"' :: rest => some ([], rest)
  | '\\' :: [] => none
  | '\\' :: c :: rest =>
      if c == '\n' then none
      else (closeQuote? rest).map fun (body, after) => ('\\' :: c :: body, after)
  | c :: rest => (closeQuote? rest).map fun (body, after) => (c :: body, after)

def quoted? (rest : List Char) : Option (Lexeme × List Char) :=
  (closeQuote? rest).map fun (body, after) =>
    (⟨.token .string, '"' :: body ++ ['"']⟩, after)

/-- The rest of the line, after the two slashes that open a comment. -/
def comment (rest : List Char) : Lexeme × List Char :=
  (⟨.comment, '/' :: '/' :: rest.takeWhile (· != '\n')⟩, rest.dropWhile (· != '\n'))

def symbol (kind : TokenKind) (text rest : List Char) : Option (Lexeme × List Char) :=
  some (⟨.token kind, text⟩, rest)

/-- The operator or punctuation mark at the start of a text; the longer of two
that fit. -/
def mark? : List Char → Option (Lexeme × List Char)
  | '=' :: '=' :: rest => symbol .equals ['=', '='] rest
  | '!' :: '=' :: rest => symbol .notEquals ['!', '='] rest
  | '<' :: '=' :: rest => symbol .lessEquals ['<', '='] rest
  | '>' :: '=' :: rest => symbol .greaterEquals ['>', '='] rest
  | '|' :: '|' :: rest => symbol .or ['|', '|'] rest
  | '&' :: '&' :: rest => symbol .and ['&', '&'] rest
  | '\x7b' :: rest => symbol .openCurly ['\x7b'] rest
  | '\x7d' :: rest => symbol .closeCurly ['\x7d'] rest
  | '(' :: rest => symbol .openParen ['('] rest
  | ')' :: rest => symbol .closeParen [')'] rest
  | '!' :: rest => symbol .not ['!'] rest
  | '=' :: rest => symbol .assignment ['='] rest
  | '<' :: rest => symbol .less ['<'] rest
  | '>' :: rest => symbol .greater ['>'] rest
  | ';' :: rest => symbol .semicolon [';'] rest
  | ',' :: rest => symbol .comma [','] rest
  | '+' :: rest => symbol .plus ['+'] rest
  | '-' :: rest => symbol .dash ['-'] rest
  | '/' :: rest => symbol .slash ['/'] rest
  | '*' :: rest => symbol .star ['*'] rest
  | '%' :: rest => symbol .percent ['%'] rest
  | '^' :: rest => symbol .caret ['^'] rest
  | _ => none

/-- The lexeme at the start of a text, and the text after it. -/
def next? : List Char → Option (Lexeme × List Char)
  | [] => none
  | '/' :: '/' :: rest => some (comment rest)
  | first :: rest =>
      if isWordStart first then some (word first rest)
      else if first.isDigit then some (number first rest)
      else if isBlank first then some (blank first rest)
      else if first == '"' then quoted? rest
      else mark? (first :: rest)

/-! A lexeme is never empty, and it is where the text begins. -/

theorem fraction_append (rest : List Char) :
    (fraction rest).1 ++ (fraction rest).2 = rest := by
  unfold fraction
  split
  · split <;> simp
  · rfl

theorem closeQuote?_append {rest body after : List Char}
    (hclose : closeQuote? rest = some (body, after)) :
    body ++ '"' :: after = rest := by
  fun_induction closeQuote? rest generalizing body with
  | case1 => simp at hclose
  | case2 rest =>
      simp only [Option.some.injEq, Prod.mk.injEq] at hclose
      simp [← hclose.1, hclose.2]
  | case3 => simp at hclose
  | case4 => simp at hclose
  | case5 c rest _ ih =>
      obtain ⟨⟨inner, tail⟩, hinner, heq⟩ := Option.map_eq_some_iff.1 hclose
      simp only [Prod.mk.injEq] at heq
      obtain ⟨rfl, rfl⟩ := heq
      simp [ih hinner]
  | case6 c rest _ _ _ ih =>
      obtain ⟨⟨inner, tail⟩, hinner, heq⟩ := Option.map_eq_some_iff.1 hclose
      simp only [Prod.mk.injEq] at heq
      obtain ⟨rfl, rfl⟩ := heq
      simp [ih hinner]

theorem mark?_append {text rest : List Char} {lexeme : Lexeme}
    (hmark : mark? text = some (lexeme, rest)) :
    lexeme.text ++ rest = text ∧ lexeme.text ≠ [] := by
  unfold mark? symbol at hmark
  split at hmark <;> first
    | contradiction
    | (simp only [Option.some.injEq, Prod.mk.injEq] at hmark
       obtain ⟨rfl, rfl⟩ := hmark
       simp)

theorem next?_append {text rest : List Char} {lexeme : Lexeme}
    (hnext : next? text = some (lexeme, rest)) :
    lexeme.text ++ rest = text ∧ lexeme.text ≠ [] := by
  unfold next? at hnext
  split at hnext
  · contradiction
  · simp only [comment, Option.some.injEq, Prod.mk.injEq] at hnext
    obtain ⟨rfl, rfl⟩ := hnext
    simp
  · rename_i first tail _
    split at hnext
    · simp only [word, Option.some.injEq, Prod.mk.injEq] at hnext
      obtain ⟨rfl, rfl⟩ := hnext
      simp
    · split at hnext
      · simp only [number, Option.some.injEq, Prod.mk.injEq] at hnext
        obtain ⟨rfl, rfl⟩ := hnext
        simp [fraction_append]
      · split at hnext
        · simp only [blank, Option.some.injEq, Prod.mk.injEq] at hnext
          obtain ⟨rfl, rfl⟩ := hnext
          simp
        · split at hnext
          · rename_i hquote
            obtain ⟨⟨body, after⟩, hclose, heq⟩ := Option.map_eq_some_iff.1 hnext
            simp only [Prod.mk.injEq] at heq
            obtain ⟨rfl, rfl⟩ := heq
            simp [closeQuote?_append hclose, (beq_iff_eq.1 hquote)]
          · exact mark?_append hnext

theorem next?_length_lt {text rest : List Char} {lexeme : Lexeme}
    (hnext : next? text = some (lexeme, rest)) : rest.length < text.length := by
  obtain ⟨happend, hne⟩ := next?_append hnext
  have hpos : 0 < lexeme.text.length := List.length_pos_iff.2 hne
  rw [← happend, List.length_append]
  omega

/-- Cuts a text into lexemes as far as it goes. The second part is what is left
where no lexeme starts, and empty if there is no such place. -/
def cut (text : List Char) : List Lexeme × List Char :=
  match _hnext : next? text with
  | none => ([], text)
  | some (lexeme, rest) =>
      let (lexemes, stuck) := cut rest
      (lexeme :: lexemes, stuck)
termination_by text.length
decreasing_by exact next?_length_lt _hnext

/-- The value of the token that a lexeme is: its text, and for a string literal
the text between its quotes. -/
def value (lexeme : Lexeme) : String :=
  match lexeme.lexClass with
  | .token .string => .ofList (lexeme.text.tail.dropLast)
  | _ => .ofList lexeme.text

end Lexeme

end Coroscript
