import Coroscript.Error
import Coroscript.Source.Blank
import Coroscript.Source.Lines

namespace Coroscript

/-! How an error is shown to the author of a program. -/

/-- An error resolved against the text it is about. -/
structure Diagnostic where
  category : Category
  message : String
  location : Location
deriving DecidableEq, Repr

namespace Diagnostic

def render (diagnostic : Diagnostic) : String :=
  "Error: " ++ diagnostic.message ++ " [Ln " ++ toString diagnostic.location.line ++
    ", Col " ++ toString diagnostic.location.column ++ "]"

end Diagnostic

namespace Error

def location (error : Error) (source : List Char) : Location :=
  .ofOffset source error.position.offset.toNat

def diagnostic (error : Error) (source : List Char) : Diagnostic :=
  ⟨error.cause.category, error.cause.message, error.location source⟩

def isIndentation (c : Char) : Bool :=
  c == ' ' || c == '\t'

/-- `text` at the right end of a field of `width` characters, filled with `fill`. -/
def padLeft (fill : Char) (width : Nat) (text : List Char) : List Char :=
  List.replicate (width - text.length) fill ++ text

/-- The lines that show where an error is: the diagnostic, the tip if there is
one, the file, the line of source without its indentation, and a caret under
the place. -/
def reportLines (error : Error) (source : List Char) (file : String) : List (List Char) :=
  let location := error.location source
  let number := (toString location.line).toList
  let line := location.lineText source
  let indentation := (line.takeWhile isIndentation).length
  let bar := padLeft ' ' (number.length + 2) ['|']
  let caret := padLeft '-' (location.column - indentation + 1) ['^']
  let tip := match error.cause.tip? with
    | none => []
    | some tip => [("tip: " ++ tip).toList]
  [(error.diagnostic source).render.toList] ++ tip ++
    [("-> " ++ file).toList,
      bar,
      number ++ [' ', '|', ' '] ++ trimEnd (line.dropWhile isIndentation),
      bar ++ ' ' :: caret]

/-- The full report of an error, without a newline at its end. -/
def report (error : Error) (source file : String) : String :=
  .ofList (List.intercalate ['\n'] (error.reportLines source.toList file))

end Error

end Coroscript
