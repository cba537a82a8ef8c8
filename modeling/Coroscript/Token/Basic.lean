import Coroscript.Source.Position

namespace Coroscript

/-! The words of the language. -/

inductive TokenKind where
  | eof
  | number
  | string
  | identifier
  | openCurly
  | closeCurly
  | openParen
  | closeParen
  | assignment
  | equals
  | not
  | notEquals
  | less
  | lessEquals
  | greater
  | greaterEquals
  | or
  | and
  | semicolon
  | comma
  | plus
  | dash
  | slash
  | star
  | percent
  | caret
  | keyDef
  | keyCoroutine
  | keyIf
  | keyElse
  | keyReturn
  | keyYield
  | keyPrint
  | keyNext
  | keyCreateCoroutine
  | keyInt
  | keyFloat
deriving DecidableEq, Repr, Inhabited

namespace TokenKind

/-- The name under which a kind of token is reported. -/
def name : TokenKind → String
  | eof => "EOF"
  | number => "Number"
  | string => "String"
  | identifier => "Identifier"
  | openCurly => "OpenCurly"
  | closeCurly => "CloseCurly"
  | openParen => "OpenParen"
  | closeParen => "CloseParen"
  | assignment => "Assignment"
  | equals => "Equals"
  | not => "Not"
  | notEquals => "NotEquals"
  | less => "Less"
  | lessEquals => "LessEquals"
  | greater => "Greater"
  | greaterEquals => "GreaterEquals"
  | or => "Or"
  | and => "And"
  | semicolon => "Semicolon"
  | comma => "Comma"
  | plus => "Plus"
  | dash => "Dash"
  | slash => "Slash"
  | star => "Star"
  | percent => "Percent"
  | caret => "Caret"
  | keyDef => "Def"
  | keyCoroutine => "Coroutine"
  | keyIf => "If"
  | keyElse => "Else"
  | keyReturn => "Return"
  | keyYield => "Yield"
  | keyPrint => "Print"
  | keyNext => "Next"
  | keyCreateCoroutine => "CreateCoroutine"
  | keyInt => "Int"
  | keyFloat => "Float"

/-- Every kind of token, each once. -/
def all : List TokenKind :=
  [eof, number, string, identifier, openCurly, closeCurly, openParen, closeParen,
    assignment, equals, not, notEquals, less, lessEquals, greater, greaterEquals,
    or, and, semicolon, comma, plus, dash, slash, star, percent, caret, keyDef,
    keyCoroutine, keyIf, keyElse, keyReturn, keyYield, keyPrint, keyNext,
    keyCreateCoroutine, keyInt, keyFloat]

theorem mem_all (kind : TokenKind) : kind ∈ all := by
  cases kind <;> decide

/-- The kind that is reported under `name`. -/
def ofName? (name : String) : Option TokenKind :=
  all.find? fun kind => kind.name == name

theorem ofName?_name (kind : TokenKind) : ofName? kind.name = some kind := by
  cases kind <;> decide

/-- The reserved words, each with its kind. -/
def reserved : List (String × TokenKind) :=
  [("def", keyDef), ("coroutine", keyCoroutine), ("if", keyIf), ("else", keyElse),
    ("return", keyReturn), ("yield", keyYield), ("print", keyPrint),
    ("next", keyNext), ("create_coroutine", keyCreateCoroutine), ("int", keyInt),
    ("float", keyFloat)]

/-- The kind of a word: reserved words have their own, all others are identifiers. -/
def ofWord (word : String) : TokenKind :=
  (reserved.lookup word).getD identifier

end TokenKind

/-- A word of the source. Of a string literal, `value` is the text between the
quotes with its escapes as written. -/
structure Token where
  kind : TokenKind
  value : String
  span : Span
deriving DecidableEq, Repr, Inhabited

namespace Token

/-- The mark that stands after the last word, at `position`. -/
def endMark (position : Position) : Token :=
  ⟨.eof, "EOF", ⟨position, position⟩⟩

/-- The text under which a token is shown. -/
def display (token : Token) : String :=
  "Token \x7b\nkind: " ++ token.kind.name ++ ",\nvalue: " ++ token.value ++ "\x7d"

end Token

end Coroscript
