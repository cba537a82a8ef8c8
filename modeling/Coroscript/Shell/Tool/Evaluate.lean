import Coroscript.Shell.Regex
import Coroscript.Shell.Tool.Lines

namespace Coroscript.Shell

/-! Expressions whose operands and operators are words. -/

namespace Tool

namespace Evaluate

abbrev Eval := Action String (List String)

def peek : Eval (Option String) :=
  .gets List.head?

def next : Eval (Option String) :=
  fun words =>
    match words with
    | [] => (.ok none, [])
    | word :: rest => (.ok (some word), rest)

/-- How tightly an operator binds. -/
def level? : String → Option Nat
  | "|" => some 1
  | "&" => some 2
  | "=" | "==" | "!=" | "<" | "<=" | ">" | ">=" => some 3
  | "+" | "-" => some 4
  | "*" | "/" | "%" => some 5
  | ":" => some 6
  | _ => none

def isNull (value : String) : Bool :=
  value.isEmpty || value.toInt? = some 0

def number (text : String) : Eval Int :=
  match text.toInt? with
  | some n => return n
  | none => Action.fail "non-integer argument"

/-- Compares numbers as numbers, and other texts as texts. -/
def compare (operator left right : String) : Bool :=
  let (less, equal) := match left.toInt?, right.toInt? with
    | some a, some b => (decide (a < b), decide (a = b))
    | _, _ => (decide (left < right), decide (left = right))
  match operator with
  | "=" | "==" => equal
  | "!=" => !equal
  | "<" => less
  | "<=" => less || equal
  | ">" => !less && !equal
  | _ => !less

/-- What a pattern finds at the start of a text: its first group, or how much it
covers. -/
def fit (text pattern : String) : Eval String :=
  match Regex.ofText false pattern.toList with
  | .error message => Action.fail message
  | .ok regex =>
      let grouped := (pattern.splitOn "\\(").length != 1
      match regex.longest? false ⟨none, text.toList, []⟩ with
      | some after =>
          if grouped then return .ofList ((after.groups.lookup 1).getD [])
          else return toString (text.length - after.rest.length)
      | none => return if grouped then "" else "0"

def apply (operator left right : String) : Eval String := do
  match operator with
  | "|" => return if isNull left then (if isNull right then "0" else right) else left
  | "&" => return if isNull left || isNull right then "0" else left
  | ":" => fit left right
  | "+" => return toString ((← number left) + (← number right))
  | "-" => return toString ((← number left) - (← number right))
  | "*" => return toString ((← number left) * (← number right))
  | "/" | "%" =>
      let dividend ← number left
      let divisor ← number right
      if divisor = 0 then Action.fail "division by zero"
      else
        return toString (if operator = "/" then dividend.tdiv divisor else dividend.tmod divisor)
  | _ => return if compare operator left right then "1" else "0"

/-- An operand, behind the word `last`. -/
def operand (whole : Eval String) (last : String) : Eval String := do
  match ← next with
  | none => Action.fail ("syntax error: missing argument after " ++ quoted last)
  | some "(" =>
      let value ← whole
      match ← next with
      | some ")" => return value
      | some word => Action.fail ("syntax error: expecting ')' instead of " ++ quoted word)
      | none => Action.fail ("syntax error: expecting ')' after " ++ quoted value)
  | some "length" =>
      match ← next with
      | some text => return toString text.length
      | none => return "length"
  | some word => return word

/-- Goes on from a value with operators that bind at least as tightly as
`least`. -/
def operate (whole : Eval String) : (bound least : Nat) → String → Eval String
  | 0, _, left => return left
  | bound + 1, least, left => do
      match ← peek with
      | some word =>
          match level? word with
          | some level =>
              if level < least then return left
              else
                let _ ← next
                let first ← operand whole word
                let right ← operate whole bound (level + 1) first
                operate whole bound least (← apply word left right)
          | none => return left
      | none => return left

def expression : (bound : Nat) → Eval String
  | 0 => Action.fail "syntax error"
  | bound + 1 => do
      let first ← operand (expression bound) ""
      operate (expression bound) (bound + 1) 1 first

end Evaluate

def expr (arguments : List String) : Step Unit := do
  let words := if arguments.head? = some "--" then arguments.tail else arguments
  if words.isEmpty then Step.usage 2 "missing operand"
  else
    match Evaluate.expression (words.length + 1) words with
    | (.error message, _) => Step.failWith 2 message
    | (.ok _, extra :: _) =>
        Step.failWith 2 ("syntax error: unexpected argument " ++ quoted extra)
    | (.ok value, []) => do
        Step.ofBool !(Evaluate.isNull value)
        Step.print (value ++ "\n")

end Tool

end Coroscript.Shell
