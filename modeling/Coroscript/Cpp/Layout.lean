import Coroscript.Source.Lines

namespace Coroscript.Cpp

/-! Lines, indentation and braces of the emitted text. -/

/-- A line without the newline, and the carriage return before it, that end it. -/
def chompLine (line : List Char) : List Char :=
  match line.reverse with
  | '\n' :: '\r' :: rest => rest.reverse
  | '\n' :: rest => rest.reverse
  | _ => line

/-- One level of indentation. -/
def indentation : List Char :=
  [' ', ' ', ' ', ' ']

/-- Moves a line one level to the right. An empty line stays empty. -/
def indentLine : List Char → List Char
  | [] => []
  | line => indentation ++ line

/-- Moves every line of a text one level to the right. -/
def indent (text : String) : String :=
  .ofList <| List.intercalate ['\n'] <|
    (splitLines text.toList).map fun line => indentLine (chompLine line)

/-- Statements in braces, each on lines of its own. -/
def braced : List String → String
  | [] => "\x7b\x7d"
  | statements => "\x7b\n" ++ indent ("\n".intercalate statements) ++ "\n\x7d"

/-- Ends a statement, unless its text already does. -/
def terminate (code : String) : String :=
  if code.toList.getLast? = some ';' then code else code ++ ";"

end Coroscript.Cpp
