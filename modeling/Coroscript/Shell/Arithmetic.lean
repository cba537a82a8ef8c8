import Coroscript.Action

namespace Coroscript.Shell

/-! Whole numbers of 64 bits, as scripts compute with them. -/

namespace Arithmetic

/-- The number of 64 bits that is equal to `n` up to a multiple of their count. -/
def wrap (n : Int) : Int :=
  n.bmod 18446744073709551616

/-- Why a text has no value. -/
inductive Fault where
  | malformed (reason : String)
  | illegalNumber (text : String)
deriving DecidableEq, Repr

/-- What is said of a fault in a text. -/
def Fault.message (text : String) : Fault → String
  | .malformed reason => "arithmetic expression: " ++ reason ++ ": \"" ++ text ++ "\""
  | .illegalNumber number => "Illegal number: " ++ number

inductive Sign where
  | number (value : Int)
  | name (name : String)
  | operator (text : String)
deriving DecidableEq, Repr

def digitValue? (c : Char) : Option Nat :=
  if c.isDigit then some (c.toNat - '0'.toNat)
  else if 'a' ≤ c ∧ c ≤ 'f' then some (c.toNat - 'a'.toNat + 10)
  else if 'A' ≤ c ∧ c ≤ 'F' then some (c.toNat - 'A'.toNat + 10)
  else none

def isDigitOf (base : Nat) (c : Char) : Bool :=
  match digitValue? c with
  | some value => value < base
  | none => false

def digitsValue (base : Nat) (digits : List Char) : Nat :=
  digits.foldl (fun value c => base * value + (digitValue? c).getD 0) 0

/-- The number that a text starts with, and what follows it. The start of the
digits tells the base. -/
def number (text : List Char) : Int × List Char :=
  let (base, digits) : Nat × List Char := match text with
    | '0' :: 'x' :: rest | '0' :: 'X' :: rest =>
        if (rest.head?.map (isDigitOf 16)).getD false then (16, rest) else (8, text)
    | '0' :: _ => (8, text)
    | _ => (10, text)
  let taken := digits.takeWhile (isDigitOf base)
  let value : Int := digitsValue base taken
  (min value 9223372036854775807, digits.drop taken.length)

def operators : List String :=
  ["<<=", ">>=", "<<", ">>", "<=", ">=", "==", "!=", "&&", "||", "+=", "-=", "*=", "/=", "%=", "&=",
    "^=", "|=", "+", "-", "*", "/", "%", "<", ">", "=", "!", "~", "&", "|", "^", "(", ")", "?", ":"]

/-- The signs of a text; `bound` is more than its length. -/
def signs : (bound : Nat) → List Char → List Sign
  | 0, _ => []
  | _ + 1, [] => []
  | bound + 1, c :: rest =>
      if c = ' ' ∨ c = '\t' ∨ c = '\n' then signs bound rest
      else if c.isDigit then
        let (value, after) := number (c :: rest)
        .number value :: signs bound after
      else if c.isAlpha || c == '_' then
        let name := (c :: rest).takeWhile fun c => c.isAlphanum || c == '_'
        .name (.ofList name) :: signs bound ((c :: rest).drop name.length)
      else
        match operators.find? fun text => text.toList.isPrefixOf (c :: rest) with
        | some text => .operator text :: signs bound ((c :: rest).drop text.length)
        | none => [.operator (.singleton c)]

structure State where
  rest : List Sign
  /-- The variables that were set, the last first. -/
  set : List (String × Int)

abbrev Eval := Action Fault State

/-- How tightly an operator between two operands binds. -/
def level? : String → Option Nat
  | "*" | "/" | "%" => some 10
  | "+" | "-" => some 9
  | "<<" | ">>" => some 8
  | "<" | ">" | "<=" | ">=" => some 7
  | "==" | "!=" => some 6
  | "&" => some 5
  | "^" => some 4
  | "|" => some 3
  | "&&" => some 2
  | "||" => some 1
  | _ => none

def ofBool (truth : Bool) : Int :=
  if truth then 1 else 0

/-- The number as a row of bits. -/
def bits (n : Int) : UInt64 :=
  n.toInt64.toUInt64

def ofBits (n : UInt64) : Int :=
  n.toInt64.toInt

/-- The value of an operator, unless it divides by zero. -/
def apply (operator : String) (a b : Int) : Except Fault Int :=
  match operator with
  | "*" => .ok (wrap (a * b))
  | "/" => if b = 0 then .error (.malformed "division by zero") else .ok (wrap (a.tdiv b))
  | "%" => if b = 0 then .error (.malformed "division by zero") else .ok (wrap (a.tmod b))
  | "+" => .ok (wrap (a + b))
  | "-" => .ok (wrap (a - b))
  | "<<" => .ok (ofBits (bits a <<< bits b))
  | ">>" => .ok (a.toInt64 >>> b.toInt64).toInt
  | "<" => .ok (ofBool (a < b))
  | ">" => .ok (ofBool (b < a))
  | "<=" => .ok (ofBool (a ≤ b))
  | ">=" => .ok (ofBool (b ≤ a))
  | "==" => .ok (ofBool (a = b))
  | "!=" => .ok (ofBool (a ≠ b))
  | "&" => .ok (ofBits (bits a &&& bits b))
  | "^" => .ok (ofBits (bits a ^^^ bits b))
  | "|" => .ok (ofBits (bits a ||| bits b))
  | _ => .ok b

/-- The operator in an operator that sets a variable. -/
def setting? (text : String) : Option String :=
  if ["=", "+=", "-=", "*=", "/=", "%=", "&=", "^=", "|=", "<<=", ">>="].contains text then
    some (.ofList text.toList.dropLast)
  else none

def next : Eval (Option Sign) :=
  fun state =>
    match state.rest with
    | [] => (.ok none, state)
    | sign :: rest => (.ok (some sign), { state with rest })

def peek : Eval (Option Sign) :=
  .gets fun state => state.rest.head?

section Levels

/-! The value of an expression. `look` gives the values of variables; where
`used` is false the expression is only read. -/

variable (look : String → Except Fault Int)

def variableValue (name : String) : Eval Int := do
  match (← Action.gets State.set).lookup name with
  | some value => return value
  | none => Action.ofExcept (look name)

def primary (assignment : Bool → Eval Int) (used : Bool) : (bound : Nat) → Eval Int
  | 0 => Action.fail (.malformed "expecting primary")
  | bound + 1 => do
      match ← next with
      | some (.number value) => return value
      | some (.name name) => if used then variableValue look name else return 0
      | some (.operator "(") =>
          let value ← assignment used
          match ← next with
          | some (.operator ")") => return value
          | _ => Action.fail (.malformed "expecting ')'")
      | some (.operator "+") => primary assignment used bound
      | some (.operator "-") => return wrap (-(← primary assignment used bound))
      | some (.operator "!") => return ofBool ((← primary assignment used bound) = 0)
      | some (.operator "~") => return -(← primary assignment used bound) - 1
      | _ => Action.fail (.malformed "expecting primary")

/-- Goes on from a value with operators that bind at least as tightly as
`least`. -/
def operate (assignment : Bool → Eval Int) : (bound : Nat) → (used : Bool) → (least : Nat) →
    Int → Eval Int
  | 0, _, _, left => return left
  | bound + 1, used, least, left => do
      match ← peek with
      | some (.operator text) =>
          match level? text with
          | some level =>
              if level < least then return left
              else
                let _ ← next
                let rightUsed := used && match text with
                  | "&&" => left ≠ 0
                  | "||" => left = 0
                  | _ => true
                let first ← primary look assignment rightUsed (bound + 1)
                let right ← operate assignment bound rightUsed (level + 1) first
                let value ← match text with
                  | "&&" => pure (ofBool (left ≠ 0 && right ≠ 0))
                  | "||" => pure (ofBool (left ≠ 0 || right ≠ 0))
                  | _ => if used then Action.ofExcept (apply text left right) else pure 0
                operate assignment bound used least value
          | none => return left
      | _ => return left

/-- An expression that may choose between two others. -/
def conditional (assignment : Bool → Eval Int) : (bound : Nat) → (used : Bool) → Eval Int
  | 0, _ => Action.fail (.malformed "expecting primary")
  | bound + 1, used => do
      let first ← primary look assignment used (bound + 1)
      let value ← operate look assignment (bound + 1) used 1 first
      match ← peek with
      | some (.operator "?") =>
          let _ ← next
          let left ← assignment (used && value ≠ 0)
          match ← next with
          | some (.operator ":") =>
              let right ← conditional assignment bound (used && value = 0)
              return if value ≠ 0 then left else right
          | _ => Action.fail (.malformed "expecting ':'")
      | _ => return value

def assignment : (bound : Nat) → (used : Bool) → Eval Int
  | 0, _ => Action.fail (.malformed "expecting primary")
  | bound + 1, used => do
      match (← Action.gets State.rest) with
      | .name name :: .operator text :: after =>
          match setting? text with
          | some operator =>
              Action.modify fun state => { state with rest := after }
              let right ← assignment bound used
              if !used then return right
              else
                let value ← if operator.isEmpty then pure right
                  else do Action.ofExcept (apply operator (← variableValue look name) right)
                Action.modify fun state => { state with set := (name, value) :: state.set }
                return value
          | none => conditional look (assignment bound) (bound + 1) used
      | _ => conditional look (assignment bound) (bound + 1) used

end Levels

/-- The value of a text, and the variables that it sets. -/
def evaluate (look : String → Except Fault Int) (text : String) :
    Except Fault (Int × List (String × Int)) :=
  let read := signs (text.length + 1) text.toList
  let whole : Eval Int := do
    let value ← assignment look (read.length + 1) true
    match ← peek with
    | some _ => Action.fail (.malformed "expecting EOF")
    | none => return value
  match whole ⟨read, []⟩ with
  | (.ok value, after) => .ok (value, after.set.reverse)
  | (.error error, _) => .error error

end Arithmetic

end Coroscript.Shell
