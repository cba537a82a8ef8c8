import Coroscript.Shell.Source

namespace Coroscript.Shell

/-! The commands of a script, by recursive descent. The readers are over
`recurse`, which reads the lists of commands that stand inside a command. -/

/-- How far a list of commands goes. -/
inductive Extent where
  /-- To the end of the line. -/
  | line
  /-- To a token that ends a list, over at least one command. -/
  | some
  /-- To a token that ends a list. -/
  | any
deriving DecidableEq, Repr

/-- Whether a list of commands ends before a token. -/
def Token.endsList : Token → Bool
  | .eof => true
  | .operator text => text == ")" || text == ";;"
  | .keyword text =>
      ["do", "done", "elif", "else", "esac", "fi", "then", "\x7d"].contains text
  | _ => false

def Token.isKeyword (token : Token) (text : String) : Bool :=
  match token with
  | .keyword found => found == text
  | _ => false

def Token.isOperator (token : Token) (text : String) : Bool :=
  match token with
  | .operator found => found == text
  | _ => false

/-- The built-in commands whose errors end a script. -/
def specialBuiltins : List String :=
  [":", ".", "break", "continue", "eval", "exec", "exit", "export", "readonly", "return", "set",
    "shift", "local", "times", "trap", "unset"]

/-- The name and the value of a word that is an assignment. -/
def assignment? : Word → Option (String × Word)
  | .text text false :: rest =>
      let name := text.toList.takeWhile (· != '=')
      let value := text.toList.drop name.length
      match value with
      | '=' :: start =>
          if isName (.ofList name) then
            some (.ofList name,
              if start.isEmpty then rest else .text (.ofList start) false :: rest)
          else none
      | _ => none
  | _ => none

namespace Reader

section Commands

variable (recurse : Extent → Read (List Command))

/-- Commands inside a word, up to the token that ends them. The end of a text
needs no token. -/
def inner (stop : Token) : Read (List Command) := do
  let body ← recurse .any
  match stop with
  | .operator text =>
      let last ← token (fun _ => recurse .any) false false
      if last.isOperator text then return body else unexpected (.some stop)
  | _ => return body

def next (newlines reserved : Bool) : Read Token :=
  token (inner recurse) newlines reserved

/-- Takes a keyword, which has to be there. -/
def expectKeyword (newlines : Bool) (text : String) : Read Unit := do
  let found ← next recurse newlines true
  if found.isKeyword text then return () else unexpected (.some (.keyword text))

/-- The pieces of the text of a document that starts at a line. -/
def documentPieces (line : Nat) (text : List Char) : Read Word :=
  Read.within text line (word (inner recurse) .document)

/-- The target of a redirection. -/
def redirection (descriptor : Nat) (operator : String) : Read Redirection := do
  match ← next recurse false false with
  | .word target =>
      if operator = "<<" ∨ operator = "<<-" then
        let line ← Action.gets fun source => source.line + source.skipped + 1
        let text ← takeDocument (operator = "<<-") target.literal
        if target.isQuoted then return .document descriptor [.text (.ofList text) true]
        else return .document descriptor (← documentPieces recurse line text)
      else return .file descriptor operator target
  | _ => unexpected none

/-- The redirections that follow a command. -/
def redirections : (bound : Nat) → Read (List Redirection)
  | 0 => return []
  | bound + 1 => do
      match ← next recurse false true with
      | .redirect descriptor operator =>
          let first ← redirection recurse descriptor operator
          return first :: (← redirections bound)
      | _ =>
          pushBack
          return []

/-- Words up to another token. -/
def words : (bound : Nat) → Read (List Word)
  | 0 => return []
  | bound + 1 => do
      match ← next recurse false false with
      | .word word => return word :: (← words bound)
      | _ => return []

/-- What has been read of a simple command. -/
structure Simple where
  assignments : List (String × Word)
  words : List Word
  redirections : List Redirection

def simple (command : Bool → Read Command) (line : Nat) :
    (bound : Nat) → Simple → Read Command
  | 0, _ => Read.refuse "command too long"
  | bound + 1, found => do
      let done : Read Command := do
        pushBack
        return .simple line found.assignments found.words found.redirections
      match ← next recurse false false with
      | .word word =>
          match found.words, assignment? word with
          | [], .some assignment =>
              simple command line bound
                { found with assignments := found.assignments ++ [assignment] }
          | _, _ => simple command line bound { found with words := found.words ++ [word] }
      | .redirect descriptor operator =>
          let more ← redirection recurse descriptor operator
          simple command line bound { found with redirections := found.redirections ++ [more] }
      | .operator "(" =>
          match found.assignments, found.words, found.redirections with
          | [], [name], [] =>
              let closing ← next recurse false false
              if !closing.isOperator ")" then unexpected (.some (.operator ")"))
              else
                match Word.plain? name with
                | .some name =>
                    if isName name && !specialBuiltins.contains name then
                      return .define name (← command true)
                    else Read.refuse "Syntax error: Bad function name"
                | none => Read.refuse "Syntax error: Bad function name"
          | _, _, _ => done
      | _ => done

/-- The rest of a branch, behind its first keyword. -/
def branch : (bound : Nat) → Read Command
  | 0 => Read.refuse "command too long"
  | bound + 1 => do
      let condition ← recurse .some
      expectKeyword recurse false "then"
      let body ← recurse .some
      match ← next recurse false false with
      | .keyword "elif" => return .branch condition body [← branch bound]
      | .keyword "else" => return .branch condition body (← recurse .some)
      | _ =>
          pushBack
          return .branch condition body []

/-- The patterns of a clause, from the token that was read last. -/
def patterns : (bound : Nat) → Read (List Word)
  | 0 => return []
  | bound + 1 => do
      let first : Word := match ← Action.gets Source.last with
        | .word word => word
        | .keyword text => [.text text false]
        | _ => []
      let after ← next recurse false false
      if after.isOperator "|" then
        let _ ← next recurse false false
        return first :: (← patterns bound)
      else return [first]

def clauses : (bound : Nat) → Read (List (List Word × List Command))
  | 0 => return []
  | bound + 1 => do
      let first ← next recurse true true
      if first.isKeyword "esac" then return []
      else
        if first.isOperator "(" then
          let _ ← next recurse false false
        let found ← patterns recurse (bound + 1)
        let closing ← Action.gets Source.last
        if !closing.isOperator ")" then unexpected (.some (.operator ")"))
        else
          let body ← recurse .any
          let after ← next recurse true true
          if after.isKeyword "esac" then return [(found, body)]
          else if after.isOperator ";;" then return (found, body) :: (← clauses bound)
          else unexpected (.some (.operator ";;"))

/-- The rest of a loop over words, behind its first keyword. -/
def each (line bound : Nat) : Read Command := do
  let name? := match ← next recurse false false with
    | .word word => Word.plain? word
    | _ => none
  match name? with
  | .some name =>
      if !isName name then Read.refuse "Syntax error: Bad for loop variable"
      else
        let after ← next recurse true true
        let words? ← if after.isKeyword "in" then do
            let found ← words recurse bound
            match ← Action.gets Source.last with
            | .newline | .operator ";" => pure (some found)
            | _ => unexpected none
          else do
            if !after.isOperator ";" then pushBack
            pure none
        expectKeyword recurse true "do"
        let body ← recurse .some
        return .each line name words? body
  | none => Read.refuse "Syntax error: Bad for loop variable"

/-- A command that starts with a keyword or a parenthesis, up to its last token. -/
def compound (line bound : Nat) (first : Token) : Read Command := do
  match first with
  | .keyword "if" =>
      let found ← branch recurse bound
      expectKeyword recurse false "fi"
      return found
  | .keyword "while" | .keyword "until" =>
      let condition ← recurse .some
      expectKeyword recurse false "do"
      let body ← recurse .some
      expectKeyword recurse false "done"
      return .loop (first.isKeyword "while") condition body
  | .keyword "for" =>
      let found ← each recurse line bound
      expectKeyword recurse false "done"
      return found
  | .keyword "case" =>
      match ← next recurse false false with
      | .word word =>
          expectKeyword recurse true "in"
          return .choose line word (← clauses recurse bound)
      | _ => unexpected (.some (.word []))
  | .keyword "\x7b" =>
      let body ← recurse .some
      expectKeyword recurse false "\x7d"
      return .group body
  | .operator "(" =>
      let body ← recurse .some
      let closing ← next recurse false false
      if closing.isOperator ")" then return .subshell line body []
      else unexpected (.some (.operator ")"))
  | _ => unexpected none

/-- A command. `newlines` tells whether newlines may stand before it, and that a
keyword can start it. -/
def command : (bound : Nat) → (newlines reserved : Bool) → Read Command
  | 0, _, _ => Read.refuse "command too long"
  | bound + 1, newlines, reserved => do
      let first ← next recurse newlines reserved
      let line ← Action.gets Source.line
      match first with
      | .word _ | .redirect _ _ =>
          pushBack
          simple recurse (fun newlines => command bound newlines true) line (bound + 1) ⟨[], [], []⟩
      | _ =>
          let found ← compound recurse line bound first
          match ← redirections recurse bound, found with
          | [], _ => return found
          | more, .subshell line body _ | more, .group [.subshell line body _] =>
              return .subshell line body more
          | more, _ => return .redirected line found more

def pipes (bound : Nat) : (count : Nat) → Read (List Command)
  | 0 => return []
  | count + 1 => do
      let after ← next recurse false false
      if after.isOperator "|" then
        let first ← command recurse bound true true
        return first :: (← pipes bound count)
      else
        pushBack
        return []

def pipeline (bound : Nat) (newlines : Bool) : Read Command := do
  let first ← next recurse newlines true
  let negated := first.isKeyword "!"
  if !negated then pushBack
  let head ← command recurse bound false true
  let found := match ← pipes recurse bound bound with
    | [] => head
    | more => .pipeline (head :: more)
  return if negated then .negate found else found

/-- Goes on behind a command with those that depend on its outcome. -/
def conditional (bound : Nat) : (count : Nat) → Command → Read Command
  | 0, left => return left
  | count + 1, left => do
      let after ← next recurse false false
      if after.isOperator "&&" then
        conditional bound count (.both left (← pipeline recurse bound true))
      else if after.isOperator "||" then
        conditional bound count (.either left (← pipeline recurse bound true))
      else
        pushBack
        return left

def list (bound : Nat) : (count : Nat) → Extent → List Command → Read (List Command)
  | 0, _, found => return found
  | count + 1, extent, found => do
      let first ← next recurse (extent != .line) true
      match first with
      | .newline => return found
      | .eof =>
          pushBack
          return found
      | _ =>
          pushBack
          if extent = .any && first.endsList then return found
          else
            let left ← pipeline recurse bound false
            let read ← conditional recurse bound bound left
            let after ← next recurse false false
            let more := found ++ [if after.isOperator "&" then .background read else read]
            let further := if extent = .line then .line else .any
            match after with
            | .eof =>
                pushBack
                return more
            | .newline =>
                pushBack
                list bound count further more
            | .operator "&" | .operator ";" => list bound count further more
            | _ =>
                if extent = .line then unexpected none
                else
                  pushBack
                  return more

end Commands

/-- A list of commands, nested at most `depth` deep. -/
def nested : (depth : Nat) → Extent → Read (List Command)
  | 0, _ => Read.refuse "commands too deep"
  | depth + 1, extent => do
      let bound := (← Action.gets Source.rest).length + 2
      list (nested depth) bound bound extent []

/-- The commands line by line, up to the end or a line that cannot be read. -/
def lines (depth : Nat) : (bound : Nat) → Source → List Command → Script
  | 0, _, found => ⟨found, none⟩
  | bound + 1, source, found =>
      match nested depth .line source with
      | (.error error, _) => ⟨found, some error⟩
      | (.ok commands, after) =>
          match after.last with
          | .eof => ⟨found ++ commands, none⟩
          | _ => lines depth bound after (found ++ commands)

end Reader

/-- Reads a script. -/
def Script.ofText (text : String) : Script :=
  let source : Source :=
    { rest := text.toList, line := 1, skipped := 0, last := .newline, pushed := false }
  let size := text.length + 2
  Reader.lines size size source []

end Coroscript.Shell
