import Coroscript.Source.Bytes

namespace Coroscript

/-! Lines and columns. Lines count from one, columns count characters from
zero, and a line keeps the newline that ends it. -/

/-- The lines of a text, each with its newline. -/
def splitLines : List Char → List (List Char)
  | [] => []
  | c :: rest =>
      if c = '\n' then [c] :: splitLines rest
      else
        match splitLines rest with
        | [] => [[c]]
        | line :: lines => (c :: line) :: lines

theorem flatten_splitLines (text : List Char) : (splitLines text).flatten = text := by
  induction text with
  | nil => rfl
  | cons c rest ih =>
      rw [splitLines]
      split
      · simp [ih]
      · cases hlines : splitLines rest with
        | nil =>
            rw [hlines] at ih
            simp [← ih]
        | cons line lines =>
            rw [hlines] at ih
            simpa using ih

/-- A line number and a column. -/
structure Location where
  line : Nat
  column : Nat
deriving DecidableEq, Repr

namespace Location

/-- The location behind the last character of `before`, in a text that begins
with `before`. -/
def after (before : List Char) : Location :=
  ⟨before.count '\n' + 1, (before.reverse.takeWhile (· != '\n')).length⟩

/-- The location `offset` bytes into a text. An offset within a character means
the start of that character, an offset past the end means the end. -/
def ofOffset (text : List Char) (offset : Nat) : Location :=
  after (takeBytes offset text)

/-- The text of the line, with its newline; nothing for a line the text has not. -/
def lineText (location : Location) (text : List Char) : List Char :=
  (splitLines text)[location.line - 1]?.getD []

end Location

end Coroscript
