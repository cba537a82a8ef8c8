import Coroscript.Shell.Arithmetic

namespace Coroscript.Shell

/-! Texts with escapes and formats. -/

namespace Printf

def isOctal (c : Char) : Bool :=
  '0' ≤ c && c ≤ '7'

/-- The character that a letter after a backslash names. -/
def escapeLetter? : Char → Option Char
  | 'a' => some '\x07'
  | 'b' => some '\x08'
  | 't' => some '\t'
  | 'n' => some '\n'
  | 'v' => some '\x0b'
  | 'f' => some '\x0c'
  | 'r' => some '\r'
  | '\\' => some '\\'
  | _ => none

/-- What a backslash and the text after it stand for, and the text behind that.
Up to three octal digits name a byte; where `zero` is set, a zero in front of
them does not count. -/
def escape (zero : Bool) (rest : List Char) : List Char × List Char :=
  match rest with
  | [] => (['\\'], [])
  | c :: others =>
      match escapeLetter? c with
      | some found => ([found], others)
      | none =>
          if isOctal c then
            let digits := if zero && c == '0' then others else rest
            let taken := (digits.take 3).takeWhile isOctal
            ([Char.ofNat (Arithmetic.digitsValue 8 taken % 256)], digits.drop taken.length)
          else (['\\'], rest)

/-- Resolves escapes. The second part tells whether `\c` ended the text. -/
def unescape : (bound : Nat) → List Char → List Char × Bool
  | 0, _ => ([], false)
  | _ + 1, [] => ([], false)
  | _ + 1, '\\' :: 'c' :: _ => ([], true)
  | bound + 1, '\\' :: rest =>
      let (found, after) := escape true rest
      let (others, ended) := unescape bound after
      (found ++ others, ended)
  | bound + 1, c :: rest =>
      let (others, ended) := unescape bound rest
      (c :: others, ended)

/-- The text that `echo` writes. -/
def echo (arguments : List String) : String :=
  let (newline, words) := match arguments with
    | "-n" :: words => (false, words)
    | words => (true, words)
  let text := (" ".intercalate words).toList
  let (shown, ended) := unescape (text.length + 1) text
  .ofList (if newline && !ended then shown ++ ['\n'] else shown)

/-! Formats. -/

/-- How a value is laid out. -/
structure Directive where
  flags : List Char
  width : Nat
  precision? : Option Nat
  letter : Char
deriving Repr

/-- What has been written, and what is left for the rest of a format. -/
structure State where
  written : List Char
  arguments : List String
  messages : List String
  failed : Bool
  ended : Bool

def pad (directive : Directive) (text : List Char) : List Char :=
  let blanks := List.replicate (directive.width - text.length) ' '
  if directive.flags.contains '-' then text ++ blanks else blanks ++ text

/-- The digits of a number with its sign, padded. -/
def padNumber (directive : Directive) (sign digits : List Char) : List Char :=
  let exact := match directive.precision? with
    | some precision => List.replicate (precision - digits.length) '0' ++ digits
    | none => digits
  let length := sign.length + exact.length
  if directive.flags.contains '0' && !directive.flags.contains '-' &&
      directive.precision?.isNone then
    sign ++ List.replicate (directive.width - length) '0' ++ exact
  else pad directive (sign ++ exact)

/-- The number that an argument is, and what is wrong with it. -/
def argumentNumber (text : String) : Int × Option String :=
  match text.toList with
  | '\x27' :: c :: _ | '"' :: c :: _ => (c.toNat, none)
  | chars =>
      let start := chars.dropWhile fun c => c == ' ' || c == '\t' || c == '\n'
      let (negative, digits) := match start with
        | '-' :: rest => (true, rest)
        | '+' :: rest => (false, rest)
        | _ => (false, start)
      if !(digits.head?.map Char.isDigit).getD false then
        (0, if chars.isEmpty then none else some (text ++ ": expected numeric value"))
      else
        let (value, after) := Arithmetic.number digits
        (if negative then -value else value,
          if after.isEmpty then none else some (text ++ ": not completely converted"))

def digitsIn (base : Nat) (n : Nat) : List Char :=
  Nat.toDigits base n

/-- The value of a number as one without a sign. -/
def unsigned (n : Int) : Nat :=
  (n.emod 18446744073709551616).toNat

def showNumber (directive : Directive) (n : Int) : List Char :=
  match directive.letter with
  | 'd' | 'i' =>
      let sign := if n < 0 then ['-']
        else if directive.flags.contains '+' then ['+']
        else if directive.flags.contains ' ' then [' '] else []
      padNumber directive sign (digitsIn 10 n.natAbs)
  | 'o' =>
      let digits := digitsIn 8 (unsigned n)
      padNumber directive [] (if directive.flags.contains '#' then '0' :: digits else digits)
  | 'x' =>
      padNumber directive (if directive.flags.contains '#' && n ≠ 0 then ['0', 'x'] else [])
        (digitsIn 16 (unsigned n))
  | 'X' =>
      padNumber directive (if directive.flags.contains '#' && n ≠ 0 then ['0', 'X'] else [])
        ((digitsIn 16 (unsigned n)).map Char.toUpper)
  | _ => padNumber directive [] (digitsIn 10 (unsigned n))

def cut (directive : Directive) (text : List Char) : List Char :=
  match directive.precision? with
  | some precision => text.take precision
  | none => text

/-- Writes the next argument as a directive says. -/
def State.apply (state : State) (directive : Directive) : State :=
  let text := state.arguments.head?.getD ""
  let state := { state with arguments := state.arguments.tail }
  let put (chars : List Char) : State := { state with written := state.written ++ chars }
  match directive.letter with
  | 's' => put (pad directive (cut directive text.toList))
  | 'c' => put (pad directive (text.toList.take 1))
  | 'b' =>
      let (shown, ended) := unescape (text.length + 1) text.toList
      { put (pad directive (cut directive shown)) with ended }
  | _ =>
      let (value, message?) := argumentNumber text
      { put (showNumber directive value) with
        messages := state.messages ++ message?.toList
        failed := state.failed || message?.isSome }

/-- A number in a format: its digits, or a star for the next argument. -/
def size (rest : List Char) (state : State) : Option Int × List Char × State :=
  match rest with
  | '*' :: after =>
      let (value, _) := argumentNumber (state.arguments.head?.getD "")
      (some value, after, { state with arguments := state.arguments.tail })
  | _ =>
      let digits := rest.takeWhile Char.isDigit
      (if digits.isEmpty then none else some (Arithmetic.digitsValue 10 digits : Nat),
        rest.drop digits.length, state)

/-- The directive behind a percent sign, and the text behind that. -/
def directive (rest : List Char) (state : State) :
    Except String (Directive × List Char × State) :=
  let flags := rest.takeWhile ("#-+ 0".toList.contains ·)
  let (width?, afterWidth, state) := size (rest.drop flags.length) state
  let (precision?, after, state) : Option Nat × List Char × State := match afterWidth with
    | '.' :: digits =>
        let (precision?, after, state) := size digits state
        (some (precision?.getD 0).toNat, after, state)
    | _ => (none, afterWidth, state)
  let width := width?.getD 0
  let flags := if width < 0 then '-' :: flags else flags
  match after with
  | letter :: behind =>
      if "diouxXcsb".toList.contains letter then
        .ok (⟨flags, width.natAbs, precision?, letter⟩, behind, state)
      else
        let text := rest.take (rest.length - behind.length)
        .error ("%" ++ String.ofList text ++ ": invalid directive")
  | [] => .error "missing format character"

/-- Writes a format once; `bound` is more than its length. -/
def once : (bound : Nat) → List Char → State → State × Option String
  | 0, _, state => (state, none)
  | _ + 1, [], state => (state, none)
  | bound + 1, '%' :: '%' :: rest, state =>
      once bound rest { state with written := state.written ++ ['%'] }
  | bound + 1, '%' :: rest, state =>
      match directive rest state with
      | .error message => (state, some message)
      | .ok (found, after, state) =>
          let next := state.apply found
          if next.ended then (next, none) else once bound after next
  | _ + 1, '\\' :: 'c' :: _, state => ({ state with ended := true }, none)
  | bound + 1, '\\' :: rest, state =>
      let (found, after) := escape false rest
      once bound after { state with written := state.written ++ found }
  | bound + 1, c :: rest, state =>
      once bound rest { state with written := state.written ++ [c] }

/-- Writes a format again as long as it uses arguments and some are left. -/
def repeated (format : List Char) : (bound : Nat) → State → State × Option String
  | 0, state => (state, none)
  | bound + 1, state =>
      match once (format.length + 1) format state with
      | (after, some message) => (after, some message)
      | (after, none) =>
          if after.ended ∨ after.arguments.isEmpty ∨
              after.arguments.length = state.arguments.length then (after, none)
          else repeated format bound after

/-- What a format and its arguments write: the text, the messages, and whether a
directive means nothing. -/
def format (text : String) (arguments : List String) : State × Option String :=
  repeated text.toList (arguments.length + 1) ⟨[], arguments, [], false, false⟩

end Printf

end Coroscript.Shell
