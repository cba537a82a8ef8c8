namespace Coroscript.Shell

/-! Patterns of names. -/

/-- A part of a pattern. -/
inductive Glyph where
  | plain (c : Char)
  | one
  | many
  /-- One character that is in a range or a class, or in none of them. -/
  | among (negated : Bool) (ranges : List (Char × Char)) (classes : List String)
deriving DecidableEq, Repr

abbrev Pattern := List Glyph

/-- A character with a mark on whether it is quoted. -/
abbrev Marked := Char × Bool

def isPunctuation (c : Char) : Bool :=
  '!' ≤ c && c ≤ '~' && !c.isAlphanum

/-- Whether a character is in the class of a name. -/
def isInClass (name : String) (c : Char) : Bool :=
  match name with
  | "alpha" => c.isAlpha
  | "digit" => c.isDigit
  | "alnum" => c.isAlphanum
  | "upper" => c.isUpper
  | "lower" => c.isLower
  | "space" => [' ', '\t', '\n', '\x0b', '\x0c', '\r'].contains c
  | "blank" => c == ' ' || c == '\t'
  | "punct" => isPunctuation c
  | "cntrl" => c < ' ' || c == '\x7f'
  | "print" => ' ' ≤ c && c ≤ '~'
  | "graph" => '!' ≤ c && c ≤ '~'
  | "xdigit" => c.isDigit || ('a' ≤ c && c ≤ 'f') || ('A' ≤ c && c ≤ 'F')
  | _ => false

namespace Glyph

/-- Whether a character is the one that a glyph stands for. -/
def covers (glyph : Glyph) (c : Char) : Bool :=
  match glyph with
  | .plain own => own == c
  | .one => true
  | .many => false
  | .among negated ranges classes =>
      negated != (ranges.any (fun range => range.1 ≤ c && c ≤ range.2) ||
        classes.any (isInClass · c))

end Glyph

namespace Pattern

/-- Whether a whole text fits. -/
def accepts : Pattern → List Char → Bool
  | [], text => text.isEmpty
  | .many :: rest, text =>
      accepts rest text ||
        match text with
        | [] => false
        | _ :: others => accepts (.many :: rest) others
  | _ :: _, [] => false
  | glyph :: rest, c :: others => glyph.covers c && accepts rest others
termination_by pattern text => (pattern.length, text.length)

/-- The inside of a bracket: its ranges and classes, and what follows it. None if
it is not closed. `first` tells that a closing bracket is one of its characters. -/
def bracket? (first : Bool) :
    (bound : Nat) → List Marked → Option (List (Char × Char) × List String × List Marked)
  | 0, _ => none
  | _ + 1, [] => none
  | bound + 1, (c, quoted) :: rest =>
      if c = ']' ∧ !quoted ∧ !first then some ([], [], rest)
      else
        match c, rest with
        | '[', (':', false) :: inside =>
            let name := (inside.takeWhile fun mark => mark.1.isAlpha).map Prod.fst
            match inside.drop name.length with
            | (':', _) :: (']', _) :: after => do
                let (ranges, classes, left) ← bracket? false bound after
                return (ranges, .ofList name :: classes, left)
            | _ => do
                let (ranges, classes, left) ← bracket? false bound rest
                return (('[', '[') :: ranges, classes, left)
        | _, ('-', false) :: (last, lastQuoted) :: after =>
            if last = ']' ∧ !lastQuoted then do
              let (ranges, classes, left) ← bracket? false bound rest
              return ((c, c) :: ranges, classes, left)
            else do
              let (ranges, classes, left) ← bracket? false bound after
              return ((c, last) :: ranges, classes, left)
        | _, _ => do
            let (ranges, classes, left) ← bracket? false bound rest
            return ((c, c) :: ranges, classes, left)

/-- The glyph of a bracket, behind its opening, and what follows it. -/
def among? (rest : List Marked) : Option (Glyph × List Marked) := do
  let (negated, inside) := match rest with
    | ('!', false) :: inside | ('^', false) :: inside => (true, inside)
    | _ => (false, rest)
  let (ranges, classes, after) ← bracket? true (inside.length + 1) inside
  return (.among negated ranges classes, after)

/-- The pattern that a marked text spells; `bound` is more than its length. -/
def read : (bound : Nat) → List Marked → Pattern
  | 0, _ => []
  | _ + 1, [] => []
  | bound + 1, (c, quoted) :: rest =>
      if quoted then .plain c :: read bound rest
      else
        match c with
        | '*' => .many :: read bound rest
        | '?' => .one :: read bound rest
        | '[' =>
            match among? rest with
            | some (glyph, after) => glyph :: read bound after
            | none => .plain '[' :: read bound rest
        | '\\' =>
            match rest with
            | (next, _) :: others => .plain next :: read bound others
            | [] => [.plain '\\']
        | _ => .plain c :: read bound rest

def ofMarked (text : List Marked) : Pattern :=
  read (text.length + 1) text

/-- Whether a pattern fits only one text. -/
def isPlain (pattern : Pattern) : Bool :=
  pattern.all fun glyph =>
    match glyph with
    | .plain _ => true
    | _ => false

/-- The ways to cut a text in two, the shortest first part first. -/
def cuts : List Char → List (List Char × List Char)
  | [] => [([], [])]
  | c :: rest => ([], c :: rest) :: (cuts rest).map fun cut => (c :: cut.1, cut.2)

/-- A text without the shortest or longest start that fits. -/
def dropStart (pattern : Pattern) (longest : Bool) (text : List Char) : List Char :=
  let order := if longest then (cuts text).reverse else cuts text
  match order.find? fun cut => pattern.accepts cut.1 with
  | some cut => cut.2
  | none => text

/-- A text without the shortest or longest end that fits. -/
def dropEnd (pattern : Pattern) (longest : Bool) (text : List Char) : List Char :=
  let order := if longest then cuts text else (cuts text).reverse
  match order.find? fun cut => pattern.accepts cut.2 with
  | some cut => cut.1
  | none => text

end Pattern

end Coroscript.Shell
