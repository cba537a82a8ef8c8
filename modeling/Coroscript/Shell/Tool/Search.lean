import Coroscript.Shell.Regex
import Coroscript.Shell.Tool.Lines

namespace Coroscript.Shell

/-! Lines that match. -/

namespace Tool

/-- What a search looks for, and how it shows it. -/
structure Search where
  regexes : List Regex
  ignoreCase : Bool
  inverted : Bool

namespace Search

def matches? (search : Search) (line : List Char) : Bool :=
  search.inverted != search.regexes.any fun regex =>
    (regex.find? search.ignoreCase line none).isSome

/-- The parts of a line that match, without the empty ones. -/
def occurrences (search : Search) : (bound : Nat) → (before? : Option Char) → List Char →
    List (List Char)
  | 0, _, _ => []
  | bound + 1, before?, line =>
      let found := search.regexes.filterMap fun regex => regex.find? search.ignoreCase line before?
      let best? := found.foldl (fun best? next =>
        match best? with
        | some best => if next.1.length < best.1.length then some next else some best
        | none => some next) none
      match best? with
      | none => []
      | some (_, matched, after) =>
          if matched.isEmpty then
            match after.rest with
            | [] => []
            | c :: rest => occurrences search bound (some c) rest
          else matched :: occurrences search bound after.before? after.rest

end Search

/-- The regular expressions of a pattern, one for each of its lines. -/
def searchRegexes (options : Options) (patterns : List String) : Except String (List Regex) :=
  let lines := patterns.flatMap fun pattern => fieldsOf '\n' pattern.toList
  lines.mapM fun line => do
    let regex ← if options.has 'F' then pure (Regex.ofPlain line)
      else Regex.ofText (options.has 'E') line
    if options.has 'x' then return .both .lineStart (.both regex .lineEnd)
    else if options.has 'w' then
      return .both (.wordEdge false) (.both regex (.wordEdge false))
    else return regex

def searchOptions : KnownOptions :=
  ⟨"EFGPVHILUTZachilnoqRrsuvwxyz".toList, ['A', 'B', 'C', 'd', 'D', 'e', 'f', 'm'],
    [("quiet", 'q'), ("silent", 'q'), ("count", 'c'), ("invert-match", 'v'), ("ignore-case", 'i'),
      ("line-number", 'n'), ("files-with-matches", 'l'), ("no-messages", 's'),
      ("line-regexp", 'x'), ("word-regexp", 'w'), ("only-matching", 'o'),
      ("extended-regexp", 'E'), ("fixed-strings", 'F'), ("regexp", 'e')]⟩

/-- Shows what a search finds in one text, and tells whether it finds something. -/
def searchIn (options : Options) (search : Search) (label text : String) : Step Bool := do
  let found := (linesOf text.toList).zipIdx.filter fun line => search.matches? line.1
  if options.has 'q' then return !found.isEmpty
  else if options.has 'l' then
    if !found.isEmpty then Step.print (label ++ "\n")
    return !found.isEmpty
  else if options.has 'L' then
    if found.isEmpty then Step.print (label ++ "\n")
    return !found.isEmpty
  else
    let named := (1 < options.operands.length || options.has 'H') && !options.has 'h'
    let start := if named then label ++ ":" else ""
    if options.has 'c' then Step.print (start ++ toString found.length ++ "\n")
    else
      for (line, index) in found do
        let number := if options.has 'n' then toString (index + 1) ++ ":" else ""
        let shown := if options.has 'o' then search.occurrences (line.length + 1) none line else [line]
        for part in shown do
          Step.print (start ++ number ++ .ofList part ++ "\n")
    return !found.isEmpty

def searchAll (options : Options) (search : Search) : Step Unit := do
  let mut matched := false
  let mut failed := false
  for path in if options.operands.isEmpty then ["-"] else options.operands do
    if !(matched && options.has 'q') then
      match ← Step.contents path with
      | .error error =>
          failed := true
          if !options.has 's' then Step.remark (unreadable path error)
      | .ok text =>
          let label := if path = "-" then "(standard input)" else path
          if ← searchIn options search label text then matched := true
  Step.finish (if failed && !(matched && options.has 'q') then 2 else if matched then 0 else 1)

def grep (arguments : List String) : Step Unit := do
  let usage : Step Unit := do
    Step.complain "Usage: grep [OPTION]... PATTERNS [FILE]..."
    Step.complain "Try 'grep --help' for more information."
    Step.finish 2
  match Options.read searchOptions arguments with
  | .error message => do
      Step.remark message
      usage
  | .ok given =>
      let named := (given.values.filter fun value => value.1 = 'e').map Prod.snd
      let (patterns, operands) := match named, given.operands with
        | [], first :: rest => ([first], rest)
        | _, _ => (named, given.operands)
      if patterns.isEmpty then usage
      else
        match searchRegexes given patterns with
        | .error message => Step.failWith 2 message
        | .ok regexes =>
            searchAll { given with operands }
              ⟨regexes, given.has 'i' || given.has 'y', given.has 'v'⟩

end Tool

end Coroscript.Shell
