import Coroscript.Shell.Tool.Search

namespace Coroscript.Shell

/-! Lines that are edited by a script. -/

namespace Tool

/-- Which lines a command is for. -/
inductive LineAddress where
  | number (n : Nat)
  | last
  | matching (regex : Regex) (ignoreCase : Bool)
deriving Repr

/-- A part of what is put in the place of a match. -/
inductive Substitute where
  | text (c : Char)
  | group (index : Nat)
deriving Repr

inductive EditAction where
  | delete
  | print
  | number
  | quit (status : Nat)
  | substitute (regex : Regex) (parts : List Substitute) (flags : List Char)
  | exchange (source target : List Char)
  | append (text : List Char)
  | insert (text : List Char)
  | change (text : List Char)
deriving Repr

structure Edit where
  first? : Option LineAddress
  last? : Option LineAddress
  negated : Bool
  action : EditAction
deriving Repr

namespace Edit

/-- The text up to a delimiter, in which a backslash keeps the delimiter. -/
def delimited? (delimiter : Char) : List Char → Option (List Char × List Char)
  | [] => none
  | '\\' :: next :: rest => do
      let (text, after) ← delimited? delimiter rest
      return (if next = delimiter then next :: text else '\\' :: next :: text, after)
  | c :: rest =>
      if c = delimiter then some ([], rest)
      else do
        let (text, after) ← delimited? delimiter rest
        return (c :: text, after)

/-- The parts of a replacement; `bound` is more than its length. -/
def replacement : (bound : Nat) → List Char → List Substitute
  | 0, _ => []
  | _ + 1, [] => []
  | bound + 1, '&' :: rest => .group 0 :: replacement bound rest
  | bound + 1, '\\' :: c :: rest =>
      let part := if c.isDigit then .group (c.toNat - '0'.toNat)
        else if c = 'n' then .text '\n'
        else if c = 't' then .text '\t' else .text c
      part :: replacement bound rest
  | bound + 1, c :: rest => .text c :: replacement bound rest

/-- An address at the start of a command. -/
def address? (extended : Bool) (text : List Char) :
    Except String (Option LineAddress × List Char) :=
  match text with
  | '$' :: rest => .ok (some .last, rest)
  | '/' :: rest =>
      match delimited? '/' rest with
      | none => .error "unterminated address regex"
      | some (pattern, after) => do
          let regex ← Regex.ofText extended pattern
          match after with
          | 'I' :: behind => return (some (.matching regex true), behind)
          | _ => return (some (.matching regex false), after)
  | _ =>
      let digits := text.takeWhile Char.isDigit
      if digits.isEmpty then .ok (none, text)
      else .ok (some (.number (Arithmetic.digitsValue 10 digits)), text.drop digits.length)

def isBlank (c : Char) : Bool :=
  c == ' ' || c == '\t'

/-- What ends a command. -/
def isEnd (c : Char) : Bool :=
  c == ';' || c == '\n'

/-- The text of a command that takes the rest of its line. -/
def lineText (rest : List Char) : List Char × List Char :=
  let start := match rest.dropWhile isBlank with
    | '\\' :: '\n' :: text => text
    | text => text
  let line := start.takeWhile (· != '\n')
  (line, start.drop (line.length + 1))

/-- The action at the start of a text, and what follows it. -/
def action? (extended : Bool) : List Char → Except String (EditAction × List Char)
  | 'd' :: rest => .ok (.delete, rest)
  | 'p' :: rest => .ok (.print, rest)
  | '=' :: rest => .ok (.number, rest)
  | 'q' :: rest =>
      let digits := (rest.dropWhile isBlank).takeWhile Char.isDigit
      .ok (.quit (Arithmetic.digitsValue 10 digits),
        (rest.dropWhile isBlank).drop digits.length)
  | 'a' :: rest => let (text, after) := lineText rest; .ok (.append text, after)
  | 'i' :: rest => let (text, after) := lineText rest; .ok (.insert text, after)
  | 'c' :: rest => let (text, after) := lineText rest; .ok (.change text, after)
  | 's' :: delimiter :: rest =>
      match delimited? delimiter rest with
      | none => .error "unterminated `s' command"
      | some (pattern, middle) =>
          match delimited? delimiter middle with
          | none => .error "unterminated `s' command"
          | some (text, after) => do
              let regex ← Regex.ofText extended pattern
              let flags := after.takeWhile fun c => c.isDigit || "gpiI".toList.contains c
              return (.substitute regex (replacement (text.length + 1) text) flags,
                after.drop flags.length)
  | 'y' :: delimiter :: rest =>
      match delimited? delimiter rest with
      | none => .error "unterminated `y' command"
      | some (source, middle) =>
          match delimited? delimiter middle with
          | none => .error "unterminated `y' command"
          | some (target, after) =>
              if source.length ≠ target.length then
                .error "strings for `y' command are different lengths"
              else .ok (.exchange source target, after)
  | c :: _ => .error ("unknown command: `" ++ .singleton c ++ "'")
  | [] => .error "missing command"

/-- The commands of a script; `bound` is more than its length. -/
def readAll (extended : Bool) : (bound : Nat) → List Char → Except String (List Edit)
  | 0, _ => .ok []
  | bound + 1, text => do
      let start := text.dropWhile fun c => isBlank c || isEnd c
      if start.isEmpty then return []
      else
        let (first?, afterFirst) ← address? extended start
        let (last?, afterLast) ← match afterFirst with
          | ',' :: rest => address? extended (rest.dropWhile isBlank)
          | _ => pure (none, afterFirst)
        let (negated, rest) := match afterLast.dropWhile isBlank with
          | '!' :: rest => (true, rest.dropWhile isBlank)
          | rest => (false, rest)
        let (action, after) ← action? extended rest
        return ⟨first?, last?, negated, action⟩ :: (← readAll extended bound after)

/-! Running. -/

/-- A line with its place. -/
structure Place where
  line : List Char
  number : Nat
  isLast : Bool

def Place.fits (place : Place) : LineAddress → Bool
  | .number n => place.number = n
  | .last => place.isLast
  | .matching regex ignoreCase => (regex.find? ignoreCase place.line none).isSome

/-- Whether a command is for a place, and whether its range goes on behind it. -/
def selects (edit : Edit) (place : Place) (inside : Bool) : Bool × Bool :=
  let (selected, goesOn) := match edit.first?, edit.last? with
    | none, _ => (true, false)
    | some first, none => (place.fits first, false)
    | some first, some final =>
        if inside then
          match final with
          | .number n => (place.number ≤ n, decide (place.number < n))
          | _ => (true, !place.fits final)
        else if place.fits first then
          match final with
          | .number n => (true, decide (place.number < n))
          | _ => (true, !place.isLast || final matches .matching _ _)
        else (false, false)
  (selected != edit.negated, goesOn)

/-- The text of a replacement for a match. -/
def fill (parts : List Substitute) (matched : List Char) (groups : List (Nat × List Char)) :
    List Char :=
  parts.flatMap fun part =>
    match part with
    | .text c => [c]
    | .group 0 => matched
    | .group index => (groups.lookup index).getD []

/-- Replaces matches from number `least` on: one of them, or all. -/
def replace (regex : Regex) (parts : List Substitute) (ignoreCase all : Bool) (least : Nat) :
    (bound count : Nat) → (before? : Option Char) → List Char → List Char × Bool
  | 0, _, _, line => (line, false)
  | bound + 1, count, before?, line =>
      match regex.find? ignoreCase line before? with
      | none => (line, false)
      | some (skipped, matched, after) =>
          let number := count + 1
          let put := if least ≤ number then fill parts matched after.groups else matched
          let done := least ≤ number
          if done && !all then (skipped ++ put ++ after.rest, true)
          else if matched.isEmpty then
            match after.rest with
            | [] => (skipped ++ put, done)
            | c :: rest =>
                let (others, changed) :=
                  replace regex parts ignoreCase all least bound number (some c) rest
                (skipped ++ put ++ c :: others, changed || done)
          else
            let (others, changed) :=
              replace regex parts ignoreCase all least bound number after.before? after.rest
            (skipped ++ put ++ others, changed || done)

/-- What becomes of a line while commands run on it. -/
structure Progress where
  line : List Char
  shown : List (List Char)
  later : List (List Char)
  deleted : Bool
  quit? : Option Nat

def act (progress : Progress) (place : Place) (inRange : Bool) : EditAction → Progress
  | .delete => { progress with deleted := true }
  | .print => { progress with shown := progress.shown ++ [progress.line] }
  | .number =>
      { progress with shown := progress.shown ++ [(toString place.number).toList] }
  | .quit status => { progress with quit? := some status }
  | .append text => { progress with later := progress.later ++ [text] }
  | .insert text => { progress with shown := progress.shown ++ [text] }
  | .change text =>
      { progress with
        shown := if inRange then progress.shown else progress.shown ++ [text]
        deleted := true }
  | .exchange source target =>
      { progress with line := progress.line.map (replaced source target) }
  | .substitute regex parts flags =>
      let least := max 1 (Arithmetic.digitsValue 10 (flags.filter Char.isDigit))
      let ignoreCase := flags.contains 'i' || flags.contains 'I'
      let (line, changed) := replace regex parts ignoreCase (flags.contains 'g') least
        (progress.line.length + 2) 0 none progress.line
      { progress with
        line
        shown := if changed && flags.contains 'p' then progress.shown ++ [line]
          else progress.shown }

/-- Runs commands on a line; the flags tell in whose range it is. -/
def runOn (place : Place) : List (Edit × Bool) → Progress → Progress × List (Edit × Bool)
  | [], progress => (progress, [])
  | (edit, inside) :: rest, progress =>
      if progress.deleted || progress.quit?.isSome then (progress, (edit, inside) :: rest)
      else
        let (selected, goesOn) := edit.selects { place with line := progress.line } inside
        let next := if selected then act progress place goesOn edit.action else progress
        let (after, others) := runOn place rest next
        (after, (edit, goesOn) :: others)

/-- The lines that commands make of lines, and the status if they quit. -/
def run (quiet : Bool) : List (Edit × Bool) → (number : Nat) → List (List Char) →
    List (List Char) × Option Nat
  | _, _, [] => ([], none)
  | edits, number, line :: lines =>
      let (progress, after) := runOn ⟨line, number, lines.isEmpty⟩ edits ⟨line, [], [], false, none⟩
      let own := if quiet || progress.deleted then [] else [progress.line]
      let shown := progress.shown ++ own ++ progress.later
      match progress.quit? with
      | some status => (shown, some status)
      | none =>
          let (others, status?) := run quiet after (number + 1) lines
          (shown ++ others, status?)

end Edit

/-- The lines as a text; the end of the last is as it was in the input. -/
def editedText (input : List Char) (lines : List (List Char)) : String :=
  let text := lines.flatMap fun line => line ++ ['\n']
  match input.getLast? with
  | some '\n' | none => .ofList text
  | _ => .ofList text.dropLast

def sed (arguments : List String) : Step Unit :=
  Step.withOptions 1
    ⟨"bEinrsuz".toList, ['e', 'f', 'l'],
      [("quiet", 'n'), ("silent", 'n'), ("expression", 'e'), ("regexp-extended", 'E'),
        ("in-place", 'i')]⟩ arguments fun options => do
      let named := (options.values.filter fun value => value.1 = 'e').map Prod.snd
      let (scripts, operands) := match named, options.operands with
        | [], first :: rest => ([first], rest)
        | _, _ => (named, options.operands)
      let script := ("\n".intercalate scripts).toList
      let extended := options.has 'E' || options.has 'r'
      match Edit.readAll extended (script.length + 1) script with
      | .error message =>
          Step.failWith 1 ("-e expression #1, char " ++ toString script.length ++ ": " ++
            message)
      | .ok edits =>
          let started := edits.map fun edit => (edit, false)
          let found ← inputs operands 2 fun path error =>
            match error with
            | .isDirectory => "couldn't edit " ++ path ++ ": not a regular file"
            | _ => "can't read " ++ path ++ ": " ++ reason error
          if options.has 'i' then
            for (path, text) in found do
              let (lines, _) := Edit.run (options.has 'n') started 1 (linesOf text.toList)
              let _ ← Step.change
                (FileTree.write (toText path) (toBytes (editedText text.toList lines)))
          else
            let text := found.flatMap fun input => input.2.toList
            let (lines, status?) := Edit.run (options.has 'n') started 1 (linesOf text)
            Step.print (editedText text lines)
            match status? with
            | some status => Step.finish status
            | none => pure ()

end Tool

end Coroscript.Shell
