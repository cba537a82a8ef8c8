import Coroscript.Error
import Coroscript.Source.Bytes
import Coroscript.Token.Lexeme

namespace Coroscript

/-! The tokens of a source text. -/

/-- The name of a source that comes from no file. -/
def unnamedFile : String :=
  "shell"

namespace Token

/-- The tokens among `lexemes`, the first of which begins `offset` bytes into
`file`; then the mark of the end. -/
def ofLexemes (file : String) (offset : Nat) : List Lexeme → List Token
  | [] => [endMark (.ofOffset offset file)]
  | lexeme :: lexemes =>
      let width := byteLength lexeme.text
      let rest := ofLexemes file (offset + width) lexemes
      match lexeme.lexClass with
      | .token kind => ⟨kind, lexeme.value, .ofOffset offset width file⟩ :: rest
      | .blank => rest
      | .comment => rest

/-- The tokens of `source`, with the end mark after them. -/
def scan (source file : String) : Except Error (List Token) :=
  match Lexeme.cut source.toList with
  | (lexemes, []) => .ok (ofLexemes file 0 lexemes)
  | (lexemes, c :: _) =>
      let offset := byteLength (lexemes.flatMap Lexeme.text)
      .error ⟨.unrecognisedToken (.singleton c), .ofOffset offset file⟩

end Token

/-- A place in a source text that moves forward by bytes. -/
structure Reader where
  file : String
  offset : Nat
  rest : List Char
deriving DecidableEq, Repr

namespace Reader

def ofSource (source : String) (file? : Option String) : Reader :=
  ⟨file?.getD unnamedFile, 0, source.toList⟩

def advance (reader : Reader) (count : Nat) : Reader :=
  { reader with offset := reader.offset + count, rest := dropBytes count reader.rest }

def atEnd (reader : Reader) : Bool :=
  reader.rest.isEmpty

/-- The next character; the null character at the end. -/
def peek (reader : Reader) : Char :=
  reader.rest.head?.getD '\x00'

def position (reader : Reader) : Position :=
  .ofOffset reader.offset reader.file

/-- The span of the next `width` bytes. -/
def spanOf (reader : Reader) (width : Nat) : Span :=
  .ofOffset reader.offset width reader.file

end Reader

end Coroscript
