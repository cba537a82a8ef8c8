import Coroscript.Action
import Coroscript.Error
import Coroscript.Token.Basic

namespace Coroscript

/-! A place in a sequence of tokens that only moves forward, and never past the
last token. -/

structure Cursor where
  current : Token
  rest : List Token
  /-- Where the token before the current one ends; the start of the file if
  there is none. -/
  previousEnd : Position
deriving DecidableEq, Repr

namespace Cursor

/-- The cursor on the first of `tokens`. An end mark is added unless the last
token is one. -/
def ofTokens (tokens : List Token) (file : String) : Cursor :=
  match tokens with
  | [] => ⟨.endMark (.start file), [], .start file⟩
  | first :: rest =>
      let last := rest.getLastD first
      if last.kind = .eof then ⟨first, rest, .start file⟩
      else ⟨first, rest ++ [.endMark last.span.stop], .start file⟩

/-- The tokens from the current one on. -/
def tokens (cursor : Cursor) : List Token :=
  cursor.current :: cursor.rest

/-- The number of tokens from the current one on. -/
def remaining (cursor : Cursor) : Nat :=
  cursor.rest.length + 1

def position (cursor : Cursor) : Position :=
  cursor.current.span.start

def advance (cursor : Cursor) : Cursor :=
  match cursor.rest with
  | [] => cursor
  | next :: rest => ⟨next, rest, cursor.current.span.stop⟩

/-- The token `count` places ahead, or the last one if there are fewer. -/
def peek (cursor : Cursor) (count : Nat) : Token :=
  cursor.tokens[count]?.getD (cursor.rest.getLastD cursor.current)

def unexpected (cursor : Cursor) : Error :=
  ⟨.unexpectedToken cursor.current.value, cursor.position⟩

def unexpectedBecause (cursor : Cursor) (message : String) : Error :=
  ⟨.unexpectedTokenDetailed cursor.current.value message, cursor.position⟩

theorem remaining_advance_le (cursor : Cursor) :
    cursor.advance.remaining ≤ cursor.remaining := by
  unfold advance
  split
  · exact Nat.le_refl _
  · rename_i hrest
    simp [remaining, hrest]

end Cursor

/-- Reading tokens: a step over a cursor. -/
abbrev Parser := Action Error Cursor

namespace Parser

variable {α : Type}

def kind : Parser TokenKind :=
  .gets fun cursor => cursor.current.kind

def peekKind (count : Nat) : Parser TokenKind :=
  .gets fun cursor => (cursor.peek count).kind

def position : Parser Position :=
  .gets Cursor.position

def previousEnd : Parser Position :=
  .gets Cursor.previousEnd

/-- Takes the current token, whatever it is. -/
def advance : Parser Token :=
  fun cursor => (.ok cursor.current, cursor.advance)

def unexpected : Parser α :=
  fun cursor => (.error cursor.unexpected, cursor)

def unexpectedBecause (message : String) : Parser α :=
  fun cursor => (.error (cursor.unexpectedBecause message), cursor)

/-- Takes a token of the given kind. -/
def expect (kind : TokenKind) : Parser Token :=
  fun cursor =>
    if cursor.current.kind = kind then advance cursor else unexpected cursor

/-- Takes a token of the given kind, and says what was missing if it is not there. -/
def expectBecause (kind : TokenKind) (message : String) : Parser Token :=
  fun cursor =>
    if cursor.current.kind = kind then advance cursor
    else unexpectedBecause message cursor

/-- At least one item, with commas between; at most `bound` of them. -/
def separated (item : Parser α) : (bound : Nat) → Parser (List α)
  | 0 => unexpected
  | bound + 1 => do
      let first ← item
      if (← kind) = .comma then
        let _ ← advance
        let others ← separated item bound
        return first :: others
      else return [first]

/-- Items in parentheses, with commas between. Each item takes a token, so the
tokens that are left bound their number. -/
def parenthesised (item : Parser α) : Parser (List α) := do
  let _ ← expect .openParen
  if (← kind) = .closeParen then
    let _ ← advance
    return []
  else
    let items ← fun cursor => separated item cursor.remaining cursor
    let _ ← expect .closeParen
    return items

end Parser

end Coroscript
