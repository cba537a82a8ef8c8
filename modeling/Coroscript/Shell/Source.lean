import Coroscript.Action
import Coroscript.Shell.Script

namespace Coroscript.Shell

/-! The text of a script while it is read: characters, words and tokens. -/

inductive Token where
  | word (word : Word)
  | keyword (text : String)
  | operator (text : String)
  | redirect (descriptor : Nat) (operator : String)
  | newline
  | eof

/-- What a token is called in messages. -/
def Token.title : Token → String
  | .word _ => "word"
  | .keyword text | .operator text => "\"" ++ text ++ "\""
  | .redirect _ _ => "redirection"
  | .newline => "newline"
  | .eof => "end of file"

structure Source where
  rest : List Char
  line : Nat
  /-- The lines that were taken out behind the current line. -/
  skipped : Nat
  /-- The token that was read last. -/
  last : Token
  /-- Whether that token is to be read again. -/
  pushed : Bool

abbrev Read := Action ReadError Source

namespace Read

def refuse {α : Type} (message : String) : Read α :=
  fun source => (.error ⟨source.line, message⟩, source)

def peek : Read (Option Char) :=
  .gets fun source => source.rest.head?

def next : Read (Option Char) :=
  fun source =>
    match source.rest with
    | [] => (.ok none, source)
    | '\n' :: rest =>
        (.ok (some '\n'),
          { source with rest, line := source.line + 1 + source.skipped, skipped := 0 })
    | c :: rest => (.ok (some c), { source with rest })

/-- Takes the next character if it is `c`. -/
def take (c : Char) : Read Bool := do
  if (← peek) = some c then
    let _ ← next
    return true
  else return false

/-- Takes characters as long as they pass a test. -/
def takeWhile (test : Char → Bool) : Read (List Char) :=
  fun source =>
    let taken := source.rest.takeWhile test
    (.ok taken,
      { source with
        rest := source.rest.drop taken.length
        line := source.line + taken.count '\n' })

/-- Reads another text, and then goes on where it was. -/
def within {α : Type} (text : List Char) (line : Nat) (inner : Read α) : Read α :=
  fun source =>
    let (result, _) := inner { source with rest := text, line, skipped := 0, pushed := false }
    (result, source)

end Read

/-! Words. -/

def isNameStart (c : Char) : Bool :=
  c.isAlpha || c == '_'

def isNamePart (c : Char) : Bool :=
  c.isAlphanum || c == '_'

def isName (text : String) : Bool :=
  match text.toList with
  | [] => false
  | first :: rest => isNameStart first && rest.all isNamePart

def isDelimiter (c : Char) : Bool :=
  " \t\n;&|<>()".toList.contains c

/-- The surroundings that a piece of a word stands in. -/
inductive Mode where
  | bare
  | double
  | braces (quoted : Bool)
  | document
  | arithmetic (depth : Nat)
deriving DecidableEq, Repr

namespace Mode

def quoted : Mode → Bool
  | .bare => false
  | .braces quoted => quoted
  | _ => true

/-- Whether the text `rest` ends a word in this mode. -/
def endsAt (mode : Mode) (rest : List Char) : Bool :=
  match mode, rest with
  | .bare, c :: _ => isDelimiter c
  | .double, '"' :: _ => true
  | .braces _, '\x7d' :: _ => true
  | .arithmetic 0, ')' :: ')' :: _ => true
  | _, _ => false

/-- What is said of a text that ends in this mode. -/
def unfinished? : Mode → Option String
  | .bare | .document => none
  | .double => some "Syntax error: Unterminated quoted string"
  | .braces _ => some "Syntax error: Missing '\x7d'"
  | .arithmetic _ => some "Syntax error: Missing '))'"

/-- The characters that a backslash makes plain; none if it does so to all. -/
def escapes? : Mode → Option (List Char)
  | .bare | .braces false => none
  | .double | .arithmetic _ => some "$\"\\`".toList
  | .braces true => some "$\"\\`\x7d".toList
  | .document => some "$\\`".toList

end Mode

namespace Word

/-- Puts a piece before a word. -/
def cons (piece : Piece) (word : Word) : Word :=
  match piece, word with
  | .text left true, .text right true :: rest => .text (left ++ right) true :: rest
  | .text left false, .text right false :: rest => .text (left ++ right) false :: rest
  | _, _ => piece :: word

def append (left right : Word) : Word :=
  left.foldr cons right

/-- The text of a word without quotes or parameters. -/
def plain? : Word → Option String
  | [.text text false] => some text
  | _ => none

/-- The text of a word, whatever is quoted in it. -/
def literal (word : Word) : String :=
  String.join (word.map fun piece =>
    match piece with
    | .text text _ => text
    | .parameter name _ _ _ _ => "$" ++ name
    | _ => "")

def isQuoted (word : Word) : Bool :=
  word.any fun piece =>
    match piece with
    | .text _ quoted | .parameter _ _ _ _ quoted | .substitution _ quoted
    | .arithmetic _ quoted => quoted

end Word

namespace Reader

/-- The special parameters. -/
def isSpecialParameter (c : Char) : Bool :=
  "@*#?-$!".toList.contains c

/-- The name of a parameter in braces; empty if there is none. -/
def parameterName : Read String := do
  match ← Read.peek with
  | some c =>
      if isNameStart c then return .ofList (← Read.takeWhile isNamePart)
      else if c.isDigit then return .ofList (← Read.takeWhile Char.isDigit)
      else if isSpecialParameter c then
        let _ ← Read.next
        return .singleton c
      else return ""
  | none => return ""

/-- The operation after the name of a parameter in braces, and whether it takes
an empty value for none. -/
def parameterOperation : Read (Operation × Bool) := do
  let empty ← Read.take ':'
  match ← Read.peek with
  | some '-' => let _ ← Read.next; return (.orDefault, empty)
  | some '=' => let _ ← Read.next; return (.orAssign, empty)
  | some '?' => let _ ← Read.next; return (.orFail, empty)
  | some '+' => let _ ← Read.next; return (.alternative, empty)
  | some '#' =>
      if empty then return (.invalid, empty)
      let _ ← Read.next
      return (if ← Read.take '#' then .dropLongestStart else .dropStart, empty)
  | some '%' =>
      if empty then return (.invalid, empty)
      let _ ← Read.next
      return (if ← Read.take '%' then .dropLongestEnd else .dropEnd, empty)
  | some '\x7d' => return (if empty then .invalid else .value, empty)
  | _ => return (.invalid, empty)

/-- The text up to a closing backquote. -/
def backquoted (quoted : Bool) : (bound : Nat) → Read (List Char)
  | 0 => Read.refuse "Syntax error: EOF in backquote substitution"
  | bound + 1 => do
      match ← Read.next with
      | none => Read.refuse "Syntax error: EOF in backquote substitution"
      | some '\x60' => return []
      | some '\\' =>
          match ← Read.next with
          | none => Read.refuse "Syntax error: EOF in backquote substitution"
          | some '\n' => backquoted quoted bound
          | some c =>
              let plain := c == '\x60' || c == '\\' || c == '$' || (c == '"' && quoted)
              let rest ← backquoted quoted bound
              return if plain then c :: rest else '\\' :: c :: rest
      | some c => return c :: (← backquoted quoted bound)

/-! The parts of a word, over the readers of what they hold: `recurse` of a word
in some mode, `commands` of commands up to a token. -/

section Pieces

variable (recurse : Mode → Read Word) (commands : Token → Read (List Command))

/-- What a backslash makes of the character after it. -/
def escaped (mode : Mode) : Read Word := do
  match ← Read.peek, mode.escapes? with
  | some '\n', _ =>
      let _ ← Read.next
      return []
  | some c, none =>
      let _ ← Read.next
      return [.text (.singleton c) true]
  | some c, some plain =>
      if plain.contains c then
        let _ ← Read.next
        return [.text (.singleton c) true]
      else return [.text "\\" mode.quoted]
  | none, _ => return [.text "\\" true]

/-- A parameter in braces, behind the opening brace. -/
def bracedParameter (quoted : Bool) : Read Word := do
  let invalid : Read Word := do
    if (← Read.peek) ≠ some '\x7d' then
      Action.modify fun source => { source with rest := source.rest.tail }
    let _ ← recurse (.braces quoted)
    let _ ← Read.next
    return [.parameter "" .invalid false [] quoted]
  let rest ← Action.gets Source.rest
  match rest with
  | '#' :: c :: _ =>
      if c = '\x7d' then
        let _ ← Read.next
        let _ ← Read.next
        return [.parameter "#" .value false [] quoted]
      else
        let _ ← Read.next
        let name ← parameterName
        if name ≠ "" ∧ (← Read.take '\x7d') then
          return [.parameter name .length false [] quoted]
        else invalid
  | _ =>
      let name ← parameterName
      if name = "" then invalid
      else
        let (operation, empty) ← parameterOperation
        match operation with
        | .invalid => invalid
        | .orDefault | .orAssign | .orFail | .alternative | .value | .length =>
            let word ← recurse (.braces quoted)
            let _ ← Read.next
            return [.parameter name operation empty word quoted]
        | _ =>
            let word ← recurse (.braces false)
            let _ ← Read.next
            return [.parameter name operation empty word quoted]

/-- What stands behind a dollar sign. -/
def dollar (quoted : Bool) : Read Word := do
  match ← Read.peek with
  | some '(' =>
      let _ ← Read.next
      if ← Read.take '(' then
        let body ← recurse (.arithmetic 0)
        let _ ← Read.next
        let _ ← Read.next
        return [.arithmetic body quoted]
      else return [.substitution (← commands (.operator ")")) quoted]
  | some '\x7b' =>
      let _ ← Read.next
      bracedParameter recurse quoted
  | some c =>
      if isNameStart c then
        return [.parameter (.ofList (← Read.takeWhile isNamePart)) .value false [] quoted]
      else if c.isDigit || isSpecialParameter c then
        let _ ← Read.next
        return [.parameter (.singleton c) .value false [] quoted]
      else return [.text "$" quoted]
  | none => return [.text "$" quoted]

/-- The piece that starts with the next character, and the mode after it. -/
def piece (mode : Mode) : Read (Word × Mode) := do
  let literal (c : Char) : Read (Word × Mode) :=
    return ([.text (.singleton c) mode.quoted], mode)
  let bare := mode = .bare || mode = .braces false
  match ← Read.next with
  | none => return ([], mode)
  | some '\\' => return (← escaped mode, mode)
  | some '\x27' =>
      if bare then
        let text ← Read.takeWhile (· != '\x27')
        if ← Read.take '\x27' then return ([.text (.ofList text) true], mode)
        else Read.refuse "Syntax error: Unterminated quoted string"
      else literal '\x27'
  | some '"' =>
      if bare || mode = .braces true then
        let inside ← recurse .double
        let _ ← Read.next
        return (if inside.isEmpty then [.text "" true] else inside, mode)
      else literal '"'
  | some '$' => return (← dollar recurse commands mode.quoted, mode)
  | some '\x60' =>
      let length := (← Action.gets Source.rest).length
      let text ← backquoted (mode = .double) (length + 1)
      return ([.substitution (← Read.within text 1 (commands .eof)) mode.quoted], mode)
  | some c =>
      match mode, c with
      | .arithmetic depth, '(' => return ([.text "(" true], .arithmetic (depth + 1))
      | .arithmetic (depth + 1), ')' => return ([.text ")" true], .arithmetic depth)
      | _, c => literal c

end Pieces

/-- The pieces up to the end of a word. Each takes a character, so that the
characters that are left bound their number. -/
def pieces (commands : Token → Read (List Command)) : (bound : Nat) → Mode → Read Word
  | 0, _ => Read.refuse "word too long"
  | bound + 1, mode => do
      let rest ← Action.gets Source.rest
      if rest.isEmpty then
        match mode.unfinished? with
        | some message => Read.refuse message
        | none => return []
      else if mode.endsAt rest then return []
      else if mode = .braces false ∧ rest.head? = some '\n' then
        Read.refuse "Syntax error: Missing '\x7d'"
      else
        let (first, after) ← piece (pieces commands bound) commands mode
        let others ← pieces commands bound after
        return Word.append first others

/-- The pieces up to the end of a word. -/
def word (commands : Token → Read (List Command)) (mode : Mode) : Read Word := do
  let length := (← Action.gets Source.rest).length
  pieces commands (length + 2) mode

/-! Tokens. -/

def keywords : List String :=
  ["!", "case", "do", "done", "elif", "else", "esac", "fi", "for", "if", "in", "then", "until",
    "while", "\x7b", "\x7d"]

/-- The operator behind the first character of a redirection. -/
def redirectOperator (first : Char) : Read String := do
  if first = '>' then
    if ← Read.take '>' then return ">>"
    else if ← Read.take '|' then return ">|"
    else if ← Read.take '&' then return ">&"
    else return ">"
  else if ← Read.take '<' then
    if ← Read.take '-' then return "<<-" else return "<<"
  else if ← Read.take '&' then return "<&"
  else if ← Read.take '>' then return "<>"
  else return "<"

/-- Skips blanks, joined lines and a comment. -/
def skipBlanks : (bound : Nat) → Read Unit
  | 0 => return ()
  | bound + 1 => do
      let rest ← Action.gets Source.rest
      match rest with
      | ' ' :: _ | '\t' :: _ =>
          let _ ← Read.next
          skipBlanks bound
      | '\\' :: '\n' :: _ =>
          let _ ← Read.next
          let _ ← Read.next
          skipBlanks bound
      | '#' :: _ =>
          let _ ← Read.takeWhile (· != '\n')
          return ()
      | _ => return ()

/-- The operator that starts with a character which is no part of a word. -/
def operatorToken (first : Char) : Read Token := do
  match first with
  | '\n' => return .newline
  | '&' => return .operator (if ← Read.take '&' then "&&" else "&")
  | '|' => return .operator (if ← Read.take '|' then "||" else "|")
  | ';' => return .operator (if ← Read.take ';' then ";;" else ";")
  | c => return .operator (.singleton c)

/-- A redirection in front of which a word stood: the number of a descriptor, or
nothing. -/
def descriptor? (word : Word) : Option (Option Nat) :=
  match word with
  | [] => some none
  | [.text text false] =>
      match text.toList with
      | [digit] => if digit.isDigit then some (some (digit.toNat - '0'.toNat)) else none
      | _ => none
  | _ => none

def rawToken (commands : Token → Read (List Command)) : Read Token := do
  let length := (← Action.gets Source.rest).length
  skipBlanks (length + 1)
  match ← Read.peek with
  | none => return .eof
  | some _ =>
      let found ← word commands .bare
      match ← Read.peek, descriptor? found with
      | some '<', some number? =>
          let _ ← Read.next
          return .redirect (number?.getD 0) (← redirectOperator '<')
      | some '>', some number? =>
          let _ ← Read.next
          return .redirect (number?.getD 1) (← redirectOperator '>')
      | _, _ =>
          if found.isEmpty then
            match ← Read.next with
            | some c => operatorToken c
            | none => return .eof
          else return .word found

/-- Drops newlines. -/
def dropNewlines (commands : Token → Read (List Command)) : (bound : Nat) → Token → Read Token
  | 0, token => return token
  | bound + 1, .newline => do dropNewlines commands bound (← rawToken commands)
  | _ + 1, token => return token

/-- The next token. `newlines` tells whether newlines are dropped, `reserved`
whether words can be keywords. -/
def token (commands : Token → Read (List Command)) (newlines reserved : Bool) : Read Token := do
  let source ← Action.get
  Action.modify fun source => { source with pushed := false }
  let first ← if source.pushed then pure source.last else rawToken commands
  let raw ← if newlines then dropNewlines commands (source.rest.length + 1) first else pure first
  let found := match raw with
    | .word word =>
        match Word.plain? word with
        | some text => if reserved && keywords.contains text then .keyword text else raw
        | none => raw
    | _ => raw
  Action.modify fun source => { source with last := found }
  return found

/-- Lets the last token be read again. -/
def pushBack : Read Unit :=
  Action.modify fun source => { source with pushed := true }

/-- Refuses the last token; `expected?` is what should have stood there. -/
def unexpected {α : Type} (expected? : Option Token) : Read α := do
  let last ← Action.gets Source.last
  match expected? with
  | none => Read.refuse ("Syntax error: " ++ last.title ++ " unexpected")
  | some expected =>
      Read.refuse ("Syntax error: " ++ last.title ++ " unexpected (expecting " ++
        expected.title ++ ")")

/-! Documents: the text of a redirection that stands in the script. -/

/-- The lines up to the one that is `stop`, and what follows that one. -/
def documentLines (tabs : Bool) (stop : List Char) :
    (bound : Nat) → List Char → List Char × List Char × Nat
  | 0, rest => ([], rest, 0)
  | _ + 1, [] => ([], [], 0)
  | bound + 1, text =>
      let start := if tabs then text.dropWhile (· == '\t') else text
      let line := start.takeWhile (· != '\n')
      let after := start.drop (line.length + 1)
      if line = stop then ([], after, 1)
      else
        let newline := if line.length < start.length then ['\n'] else []
        let (lines, rest, count) := documentLines tabs stop bound after
        (line ++ newline ++ lines, rest, count + 1)

/-- Takes a document out from behind the current line. -/
def takeDocument (tabs : Bool) (stop : String) : Read (List Char) :=
  fun source =>
    let line := source.rest.takeWhile (· != '\n')
    let behind := source.rest.drop (line.length + 1)
    let (text, after, count) := documentLines tabs stop.toList (behind.length + 1) behind
    (.ok text,
      { source with rest := line ++ '\n' :: after, skipped := source.skipped + count })

end Reader

end Coroscript.Shell
