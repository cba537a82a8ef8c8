import Coroscript.Shell.Arithmetic
import Coroscript.Shell.Machine
import Coroscript.Shell.Pattern

namespace Coroscript.Shell

/-! What words stand for. -/

/-- A part of what a word stands for. -/
inductive Mark where
  /-- `split` tells whether the character can be between two fields. -/
  | char (c : Char) (quoted split : Bool)
  | boundary
  /-- Keeps a field that is empty. -/
  | anchor
deriving DecidableEq, Repr

namespace Mark

/-- The marks of a value. -/
def ofValue (quoted : Bool) (text : String) : List Mark :=
  let marks := text.toList.map fun c => .char c quoted !quoted
  if quoted then .anchor :: marks else marks

def ofValues (quoted : Bool) : List String → List Mark
  | [] => []
  | [last] => ofValue quoted last
  | text :: texts => ofValue quoted text ++ .boundary :: ofValues quoted texts

/-- The marks as one text. -/
def text (marks : List Mark) : String :=
  .ofList <| marks.filterMap fun mark =>
    match mark with
    | .char c _ _ => some c
    | .boundary => some ' '
    | .anchor => none

def marked (marks : List Mark) : List Marked :=
  marks.filterMap fun mark =>
    match mark with
    | .char c quoted _ => some (c, quoted)
    | .boundary => some (' ', true)
    | .anchor => none

end Mark

/-! Fields. -/

/-- Fields under construction. -/
structure Fields where
  done : List (List Marked)
  current? : Option (List Marked)
  /-- Whether blanks ended the last field. -/
  blank : Bool

namespace Fields

def close (fields : Fields) : Fields :=
  { fields with done := fields.done ++ fields.current?.toList, current? := none }

def isBlank (c : Char) : Bool :=
  c == ' ' || c == '\t' || c == '\n'

/-- Takes a mark. `separators` are the characters that split. -/
def add (separators : List Char) (fields : Fields) (mark : Mark) : Fields :=
  match mark with
  | .anchor => { fields with current? := some (fields.current?.getD []), blank := false }
  | .boundary => { fields.close with blank := false }
  | .char c quoted split =>
      if split && separators.contains c then
        if isBlank c then { fields.close with blank := fields.current?.isSome || fields.blank }
        else
          match fields.current?, fields.blank with
          | none, true => { fields with blank := false }
          | none, false => { fields with done := fields.done ++ [[]] }
          | some _, _ => { fields.close with blank := false }
      else { fields with current? := some (fields.current?.getD [] ++ [(c, quoted)]), blank := false }

/-- The fields of marks. -/
def ofMarks (separators : List Char) (marks : List Mark) : List (List Marked) :=
  (marks.foldl (add separators) ⟨[], none, false⟩).close.done

end Fields

/-! Names of files that fit a pattern. -/

/-- The names in a directory, in order. -/
def namesIn (tree : FileTree) (directory : Address) : List String :=
  let names := (tree.entries.filter fun entry =>
    entry.1 != [] && entry.1.dropLast == directory).map fun entry =>
      ofText (entry.1.getLast?.getD "")
  names.mergeSort fun left right => left ≤ right

/-- The parts of a text between slashes. -/
def components : List Marked → List (List Marked)
  | [] => [[]]
  | mark :: rest =>
      match components rest with
      | [] => [[mark]]
      | first :: others => if mark.1 = '/' then [] :: first :: others else (mark :: first) :: others

/-- The paths that fit components, behind the path `done`. -/
def pathsFrom (tree : FileTree) : List (List Marked) → (done : String) → List String
  | [], done => if tree.has (toText done) then [done] else []
  | component :: others, done =>
      let slash := if others.isEmpty then "" else "/"
      let pattern := Pattern.ofMarked component
      if pattern.isPlain then
        pathsFrom tree others (done ++ String.ofList (component.map Prod.fst) ++ slash)
      else
        match tree.stat (if done.isEmpty then "." else toText done) with
        | .ok (address, .directory) =>
            let hidden := (component.head?.map fun mark => mark.1 == '.').getD false
            let fitting := ([".", ".."] ++ namesIn tree address).filter fun name =>
              (hidden || name.toList.head? != some '.') && pattern.accepts name.toList
            fitting.flatMap fun name => pathsFrom tree others (done ++ name ++ slash)
        | _ => []

/-- The texts that a field stands for: the paths that fit it, or itself. -/
def texts (tree : FileTree) (field : List Marked) : List String :=
  let itself := String.ofList (field.map Prod.fst)
  if field.any fun mark => !mark.2 && "*?[".toList.contains mark.1 then
    if (Pattern.ofMarked field).isPlain then [itself]
    else
      match pathsFrom tree (components field) "" with
      | [] => [itself]
      | paths => paths
  else [itself]

/-! Parameters. -/

namespace Machine

/-- The value of a parameter that stands for one text. -/
def parameter? (machine : Machine) (name : String) : Option String :=
  match name with
  | "#" => some (toString machine.arguments.length)
  | "?" => some (toString machine.status)
  | "-" => some (.ofList machine.options)
  | "$" => some "1000"
  | "!" => none
  | _ =>
      if name.toList.all Char.isDigit then
        match name.toNat? with
        | some 0 => some machine.name
        | some index => machine.arguments[index - 1]?
        | none => none
      else machine.assigned? name

def separators (machine : Machine) : List Char :=
  ((machine.assigned? "IFS").getD " \t\n").toList

/-- The arguments as one text. -/
def joined (machine : Machine) : String :=
  let between := match machine.assigned? "IFS" with
    | none => " "
    | some text => .ofList (text.toList.take 1)
  between.intercalate machine.arguments

/-- The number that the value of a variable is. -/
def number (machine : Machine) (name : String) : Except Arithmetic.Fault Int :=
  let text := machine.value name
  let (negative, digits) := match text.toList.dropWhile Fields.isBlank with
    | '-' :: rest => (true, rest)
    | '+' :: rest => (false, rest)
    | rest => (false, rest)
  if text.isEmpty then .ok 0
  else
    match digits, Arithmetic.number digits with
    | first :: _, (value, []) =>
        if first.isDigit then .ok (if negative then -value else value)
        else .error (.illegalNumber text)
    | _, _ => .error (.illegalNumber text)

end Machine

namespace Step

/-- The value of an arithmetic text. -/
def arithmetic (text : String) : Step String := do
  let machine ← Action.get
  match Arithmetic.evaluate machine.number text with
  | .ok (value, changed) =>
      for (name, number) in changed do
        assign name (toString number)
      return toString value
  | .error fault => fatal (fault.message text)

/-- The marks of a parameter that is there; none if it is not. -/
def parameterMarks (name : String) (quoted : Bool) : Step (Option (List Mark)) := do
  let machine ← Action.get
  match name with
  | "@" =>
      return if machine.arguments.isEmpty then none
        else some (Mark.ofValues quoted machine.arguments)
  | "*" =>
      return if machine.arguments.isEmpty then none
        else if quoted then some (Mark.ofValue true machine.joined)
        else some (Mark.ofValues false machine.arguments)
  | _ => return (machine.parameter? name).map (Mark.ofValue quoted)

/-- A parameter that has to be there where the options ask for it. -/
def plainParameter (name : String) (quoted : Bool) : Step (List Mark) := do
  match ← parameterMarks name quoted with
  | some marks => return marks
  | none =>
      if name = "@" then return []
      else if name ≠ "*" ∧ (← Action.get).has 'u' then fatal (name ++ ": parameter not set")
      else return Mark.ofValue quoted ""

section Words

variable (substitute : List Command → Step String)

mutual

/-- The marks of a piece. Where `split` is set, plain text can be between two
fields too. -/
def pieceMarks (split : Bool) : Piece → Step (List Mark)
  | .text text true => return Mark.ofValue true text
  | .text text false => return text.toList.map fun c => .char c false split
  | .substitution body quoted => do return Mark.ofValue quoted (← substitute body)
  | .arithmetic body quoted => do
      return Mark.ofValue quoted (← arithmetic (Mark.text (← wordMarks false body)))
  | .parameter name operation empty word quoted => do
      let found? ← parameterMarks name quoted
      let present := match found? with
        | some marks => !empty || !(Mark.text marks).isEmpty
        | none => false
      match operation with
      | .invalid => fatal "Bad substitution"
      | .value => plainParameter name quoted
      | .length =>
          if name = "@" ∨ name = "*" then
            return Mark.ofValue quoted (toString (← Action.get).arguments.length)
          else
            let marks ← plainParameter name quoted
            return Mark.ofValue quoted (toString (Mark.text marks).length)
      | .orDefault => if present then return found?.getD [] else wordMarks (!quoted) word
      | .alternative =>
          if present then wordMarks (!quoted) word else return Mark.ofValue quoted ""
      | .orAssign =>
          if present then return found?.getD []
          else if !isName name then fatal (name ++ ": bad variable name")
          else
            let text := Mark.text (← wordMarks false word)
            assign name text
            return Mark.ofValue quoted text
      | .orFail =>
          if present then return found?.getD []
          else if word.isEmpty then
            fatal (name ++ ": parameter not set" ++ if empty then " or null" else "")
          else fatal (name ++ ": " ++ Mark.text (← wordMarks false word))
      | .dropStart | .dropLongestStart | .dropEnd | .dropLongestEnd =>
          let text := (Mark.text (← plainParameter name quoted)).toList
          let pattern := Pattern.ofMarked (Mark.marked (← wordMarks false word))
          let rest := match operation with
            | .dropStart => pattern.dropStart false text
            | .dropLongestStart => pattern.dropStart true text
            | .dropEnd => pattern.dropEnd false text
            | _ => pattern.dropEnd true text
          return Mark.ofValue quoted (.ofList rest)

def wordMarks (split : Bool) : List Piece → Step (List Mark)
  | [] => return []
  | piece :: pieces => do
      let first ← pieceMarks split piece
      return first ++ (← wordMarks split pieces)

end

/-- The text that a word stands for where there can be only one. -/
def wordText (word : Word) : Step String := do
  return Mark.text (← wordMarks substitute false word)

/-- The pattern that a word stands for. -/
def wordPattern (word : Word) : Step Pattern := do
  return Pattern.ofMarked (Mark.marked (← wordMarks substitute false word))

/-- The texts that a word stands for: none, one or several. -/
def wordTexts (word : Word) : Step (List String) := do
  let marks ← wordMarks substitute false word
  let machine ← Action.get
  let fields := Fields.ofMarks machine.separators marks
  if machine.has 'f' then return fields.map fun field => .ofList (field.map Prod.fst)
  else return fields.flatMap (texts machine.tree)

def wordsTexts : List Word → Step (List String)
  | [] => return []
  | word :: words => do
      let first ← wordTexts substitute word
      return first ++ (← wordsTexts words)

end Words

end Step

end Coroscript.Shell
