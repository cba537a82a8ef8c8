import Coroscript.Files.Tree
import Coroscript.Shell.Text

namespace Coroscript.Shell

/-! Conditions on texts, numbers and files. -/

namespace Condition

inductive Role where
  | unary
  | binary
  | negation
  | conjunction
  | disjunction
  | opening
  | closing
deriving DecidableEq, Repr

/-- What a word is if it is an operator. -/
def role? (word : String) : Option Role :=
  if ["-r", "-w", "-x", "-e", "-f", "-d", "-c", "-b", "-p", "-u", "-g", "-k", "-s", "-t", "-z", "-n",
      "-h", "-L", "-O", "-G", "-S"].contains word then some .unary
  else if ["=", "!=", "<", ">", "-eq", "-ne", "-ge", "-gt", "-le", "-lt", "-nt", "-ot",
      "-ef"].contains word then some .binary
  else
    match word with
    | "!" => some .negation
    | "-a" => some .conjunction
    | "-o" => some .disjunction
    | "(" => some .opening
    | ")" => some .closing
    | _ => none

/-- The role of the first of some words. What could be an operator is an operand
where an operator has to follow it. -/
def first? : List String → Option Role
  | [] => none
  | word :: rest =>
      match role? word, rest with
      | some .unary, [] => none
      | some .unary, [_] => some .unary
      | some .unary, second :: _ :: _ => if role? second = some .binary then none else some .unary
      | some .opening, [] => none
      | role?, _ => role?

def number (text : String) : Except String Int :=
  let isBlank (c : Char) := c == ' ' || c == '\t' || c == '\n'
  let start := text.toList.dropWhile isBlank
  let (negative, digits) := match start with
    | '-' :: rest => (true, rest)
    | '+' :: rest => (false, rest)
    | _ => (false, start)
  let taken := digits.takeWhile Char.isDigit
  if taken.isEmpty ∨ !(digits.drop taken.length).all isBlank then
    .error ("Illegal number: " ++ text)
  else
    let value : Int := taken.foldl (fun value c => 10 * value + (c.toNat - '0'.toNat)) 0
    .ok (if negative then -value else value)

def unary (tree : FileTree) (operator operand : String) : Bool :=
  let path := toText operand
  match operator with
  | "-n" => !operand.isEmpty
  | "-z" => operand.isEmpty
  | "-e" | "-r" | "-w" | "-O" | "-G" => tree.has path
  | "-d" => tree.isDirectory path
  | _ =>
      match operator, tree.stat path with
      | "-f", .ok (_, .file _ _) => true
      | "-x", .ok (_, .file _ executable) => executable
      | "-x", .ok (_, .directory) => true
      | "-s", .ok (_, .file contents _) => !contents.isEmpty
      | "-s", .ok (_, .directory) => true
      | "-c", .ok (_, .sink) => true
      | _, _ => false

def binary (tree : FileTree) (left operator right : String) : Except String Bool := do
  match operator with
  | "=" => return left = right
  | "!=" => return left ≠ right
  | "<" => return decide (left < right)
  | ">" => return decide (right < left)
  | "-eq" => return (← number left) = (← number right)
  | "-ne" => return (← number left) ≠ (← number right)
  | "-gt" => return decide ((← number left) > (← number right))
  | "-ge" => return decide ((← number left) ≥ (← number right))
  | "-lt" => return decide ((← number left) < (← number right))
  | "-le" => return decide ((← number left) ≤ (← number right))
  | "-ef" =>
      match tree.stat (toText left), tree.stat (toText right) with
      | .ok (one, _), .ok (other, _) => return one = other
      | _, _ => return false
  | _ => return false

section Truth

/-! The truth of words, and what is left from the last of the words that were
used. -/

variable (tree : FileTree)

/-- A condition without operators around it. -/
def primary (disjunction : List String → Except String (Bool × List String))
    (words : List String) : Except String (Bool × List String) := do
  match words, first? words with
  | [], _ => return (false, [])
  | _ :: rest, some .opening =>
      if first? rest = some .closing then return (false, rest)
      else
        let (truth, last) ← disjunction rest
        match first? last.tail with
        | some .closing => return (truth, last.tail)
        | _ => throw "closing paren expected"
  | operator :: rest, some .unary =>
      match rest with
      | operand :: _ => return (unary tree operator operand, rest)
      | [] => throw (operator ++ ": argument expected")
  | operand :: rest, _ =>
      match rest, first? rest with
      | operator :: right :: others, some .binary =>
          return (← binary tree operand operator right, right :: others)
      | [operator], some .binary => throw (operator ++ ": argument expected")
      | _, _ => return (!operand.isEmpty, words)

def negation (disjunction : List String → Except String (Bool × List String)) :
    (bound : Nat) → List String → Except String (Bool × List String)
  | 0, words => .ok (false, words)
  | bound + 1, words =>
      if first? words = some .negation then do
        if words.tail.isEmpty then return (true, words)
        else
          let (truth, last) ← negation disjunction bound words.tail
          return (!truth, last)
      else primary tree disjunction words

def conjunction (disjunction : List String → Except String (Bool × List String)) :
    (bound : Nat) → List String → Except String (Bool × List String)
  | 0, words => .ok (false, words)
  | bound + 1, words => do
      let (truth, last) ← negation tree disjunction (words.length + 1) words
      if first? last.tail = some .conjunction then
        let (others, final) ← conjunction disjunction bound (last.drop 2)
        return (truth && others, final)
      else return (truth, last)

def disjunction : (bound : Nat) → List String → Except String (Bool × List String)
  | 0, words => .ok (false, words)
  | bound + 1, words => do
      let (truth, last) ← conjunction tree (disjunction bound) (words.length + 1) words
      if first? last.tail = some .disjunction then
        let (others, final) ← disjunction bound (last.drop 2)
        return (truth || others, final)
      else return (truth, last)

end Truth

/-- Whether words are a true condition, or what is wrong with them. -/
def holds (tree : FileTree) (words : List String) : Except String Bool := do
  match words with
  | [] => return false
  | [left, operator, right] =>
      if role? operator = some .binary then binary tree left operator right
      else if left = "(" ∧ right = ")" then return !operator.isEmpty
      else general words
  | "(" :: rest =>
      if rest.length = 3 ∧ rest.getLast? = some ")" then general rest.dropLast
      else general words
  | _ => general words
where
  general (words : List String) : Except String Bool := do
    let (truth, last) ← disjunction tree (words.length + 1) words
    match last with
    | [] | [_] => return truth
    | "" :: _ => throw "unexpected operator"
    | word :: _ => throw (word ++ ": unexpected operator")

end Condition

end Coroscript.Shell
