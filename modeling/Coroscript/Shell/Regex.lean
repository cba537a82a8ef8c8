import Coroscript.Action
import Coroscript.Shell.Pattern

namespace Coroscript.Shell

/-! Regular expressions on lines. -/

inductive Regex where
  | empty
  | one (glyph : Glyph)
  | lineStart
  | lineEnd
  | wordStart
  | wordEnd
  | wordEdge (negated : Bool)
  | group (index : Nat) (inner : Regex)
  | back (index : Nat)
  | both (left right : Regex)
  | either (left right : Regex)
  | times (least : Nat) (most? : Option Nat) (inner : Regex)
deriving DecidableEq, Repr

namespace Regex

/-! Matching. -/

/-- A place in a line, with what the groups have matched. -/
structure Spot where
  before? : Option Char
  rest : List Char
  groups : List (Nat × List Char)

def isWordPart (c : Char) : Bool :=
  c.isAlphanum || c == '_'

namespace Spot

/-- Goes on over some characters. -/
def advance (spot : Spot) (count : Nat) : Spot :=
  { spot with
    before? := if count = 0 then spot.before? else spot.rest[count - 1]?
    rest := spot.rest.drop count }

def wordBefore (spot : Spot) : Bool :=
  (spot.before?.map isWordPart).getD false

def wordAfter (spot : Spot) : Bool :=
  (spot.rest.head?.map isWordPart).getD false

/-- The first of the spots at each place. -/
def distinct : List Spot → List Nat → List Spot
  | [], _ => []
  | spot :: spots, seen =>
      if seen.contains spot.rest.length then distinct spots seen
      else spot :: distinct spots (spot.rest.length :: seen)

end Spot

/-- The spots after some repetitions of a step, the longest first. -/
def repeated (step : Spot → List Spot) : (bound least : Nat) → (most? : Option Nat) → Spot →
    List Spot
  | 0, least, _, spot => if least = 0 then [spot] else []
  | bound + 1, least, most?, spot =>
      let more := if most? = some 0 then [] else
        (step spot).flatMap fun next =>
          if least = 0 ∧ next.rest.length = spot.rest.length then []
          else repeated step bound (least - 1) (most?.map (· - 1)) next
      Spot.distinct (more ++ if least = 0 then [spot] else []) []

def coversIn (ignoreCase : Bool) (glyph : Glyph) (c : Char) : Bool :=
  glyph.covers c || (ignoreCase && (glyph.covers c.toLower || glyph.covers c.toUpper))

/-- The spots where a match from a spot can end. -/
def ends (ignoreCase : Bool) : Regex → Spot → List Spot
  | .empty, spot => [spot]
  | .one glyph, spot =>
      match spot.rest with
      | c :: _ => if coversIn ignoreCase glyph c then [spot.advance 1] else []
      | [] => []
  | .lineStart, spot => if spot.before?.isNone then [spot] else []
  | .lineEnd, spot => if spot.rest.isEmpty then [spot] else []
  | .wordStart, spot => if !spot.wordBefore && spot.wordAfter then [spot] else []
  | .wordEnd, spot => if spot.wordBefore && !spot.wordAfter then [spot] else []
  | .wordEdge negated, spot =>
      if (spot.wordBefore != spot.wordAfter) != negated then [spot] else []
  | .group index inner, spot =>
      (ends ignoreCase inner spot).map fun after =>
        let matched := spot.rest.take (spot.rest.length - after.rest.length)
        { after with groups := (index, matched) :: after.groups }
  | .back index, spot =>
      match spot.groups.lookup index with
      | some text => if text.isPrefixOf spot.rest then [spot.advance text.length] else []
      | none => []
  | .both left right, spot =>
      Spot.distinct ((ends ignoreCase left spot).flatMap (ends ignoreCase right)) []
  | .either left right, spot =>
      Spot.distinct (ends ignoreCase left spot ++ ends ignoreCase right spot) []
  | .times least most? inner, spot =>
      repeated (ends ignoreCase inner) (spot.rest.length + least + 1) least most? spot

/-- The spot where the longest match from a spot ends. -/
def longest? (ignoreCase : Bool) (regex : Regex) (spot : Spot) : Option Spot :=
  (regex.ends ignoreCase spot).foldl (fun best? next =>
    match best? with
    | some best => if next.rest.length < best.rest.length then some next else some best
    | none => some next) none

/-- The first match in the text behind a spot: what is before it, what it is, and
where it ends. -/
def find? (ignoreCase : Bool) (regex : Regex) :
    List Char → (before? : Option Char) → Option (List Char × List Char × Spot)
  | rest, before? =>
      match regex.longest? ignoreCase ⟨before?, rest, []⟩ with
      | some after => some ([], rest.take (rest.length - after.rest.length), after)
      | none =>
          match rest with
          | [] => none
          | c :: others =>
              (find? ignoreCase regex others (some c)).map fun (skipped, matched, after) =>
                (c :: skipped, matched, after)

/-! Reading. -/

/-- A part of the text of an expression. -/
inductive Part where
  | glyph (glyph : Glyph)
  | edge (regex : Regex)
  | caret
  | dollar
  | opening
  | closing
  | bar
  /-- How often the part before it stands; `text` is for where there is none. -/
  | times (least : Nat) (most? : Option Nat) (text : List Char)
  | back (index : Nat)
deriving DecidableEq, Repr

def wordGlyph (negated : Bool) : Glyph :=
  .among negated [('_', '_')] ["alnum"]

/-- The counts of an interval, behind its opening, and what follows it. -/
def interval? (extended : Bool) (rest : List Char) : Option (Nat × Option Nat × List Char) := do
  let least := rest.takeWhile Char.isDigit
  let after := rest.drop least.length
  let (most?, behind) : Option Nat × List Char := match after with
    | ',' :: digits =>
        let most := digits.takeWhile Char.isDigit
        ((String.ofList most).toNat?, digits.drop most.length)
    | _ => ((String.ofList least).toNat?, after)
  if least.isEmpty ∧ after = behind then none
  else
    let closing := if extended then ['\x7d'] else ['\\', '\x7d']
    if closing.isPrefixOf behind then
      return ((String.ofList least).toNat?.getD 0, most?, behind.drop closing.length)
    else none

/-- The glyph of a bracket, behind its opening, and what follows it. -/
def bracket? (rest : List Char) : Option (Glyph × List Char) := do
  let (negated, inside) := match rest with
    | '^' :: inside => (true, inside)
    | _ => (false, rest)
  let marked := inside.map fun c => (c, false)
  let (ranges, classes, after) ← Pattern.bracket? true (marked.length + 1) marked
  return (.among negated ranges classes, after.map Prod.fst)

/-- The part that a character after a backslash makes. -/
def escaped (extended : Bool) (c : Char) : Part :=
  match extended, c with
  | false, '(' => .opening
  | false, ')' => .closing
  | false, '|' => .bar
  | false, '+' => .times 1 none ['+']
  | false, '?' => .times 0 (some 1) ['?']
  | _, '<' => .edge .wordStart
  | _, '>' => .edge .wordEnd
  | _, 'b' => .edge (.wordEdge false)
  | _, 'B' => .edge (.wordEdge true)
  | _, 'w' => .glyph (wordGlyph false)
  | _, 'W' => .glyph (wordGlyph true)
  | _, 's' => .glyph (.among false [] ["space"])
  | _, 'S' => .glyph (.among true [] ["space"])
  | _, _ =>
      if '1' ≤ c ∧ c ≤ '9' then .back (c.toNat - '0'.toNat) else .glyph (.plain c)

/-- The parts of a text; `bound` is more than its length. -/
def parts (extended : Bool) : (bound : Nat) → List Char → Except String (List Part)
  | 0, _ => .ok []
  | _ + 1, [] => .ok []
  | _ + 1, ['\\'] => .error "Trailing backslash"
  | bound + 1, '\\' :: c :: rest => do
      if !extended ∧ c = '\x7b' then
        match interval? false rest with
        | some (least, most?, after) =>
            return .times least most? ['\x7b'] :: (← parts extended bound after)
        | none => throw "Invalid preceding regular expression"
      else return escaped extended c :: (← parts extended bound rest)
  | bound + 1, '[' :: rest => do
      match bracket? rest with
      | some (glyph, after) => return .glyph glyph :: (← parts extended bound after)
      | none => throw "Unmatched [, [^, [:, [., or [="
  | bound + 1, c :: rest => do
      let plain : Except String (List Part) := do
        return .glyph (.plain c) :: (← parts extended bound rest)
      let single (part : Part) : Except String (List Part) := do
        return part :: (← parts extended bound rest)
      match extended, c with
      | _, '.' => single (.glyph .one)
      | _, '*' => single (.times 0 none ['*'])
      | _, '^' => single .caret
      | _, '$' => single .dollar
      | true, '(' => single .opening
      | true, ')' => single .closing
      | true, '|' => single .bar
      | true, '+' => single (.times 1 none ['+'])
      | true, '?' => single (.times 0 (some 1) ['?'])
      | true, '\x7b' =>
          match interval? true rest with
          | some (least, most?, after) =>
              return .times least most? ['\x7b'] :: (← parts extended bound after)
          | none => plain
      | _, _ => plain

structure Reading where
  rest : List Part
  groups : Nat

abbrev Read := Action String Reading

/-- Whether a branch ends before some parts. -/
def endsBranch : List Part → Bool
  | [] | .bar :: _ | .closing :: _ => true
  | _ => false

/-- The repetitions behind an atom. -/
def repetitions : (bound : Nat) → Regex → Read Regex
  | 0, atom => return atom
  | bound + 1, atom => do
      match (← Action.get).rest with
      | .times least most? _ :: rest =>
          Action.modify fun reading => { reading with rest }
          repetitions bound (.times least most? atom)
      | _ => return atom

/-- An atom. `first` tells that it starts a branch. -/
def atom (extended : Bool) (alternatives : Read Regex) (first : Bool) : Read Regex := do
  match (← Action.get).rest with
  | [] => return .empty
  | part :: rest =>
      Action.modify fun reading => { reading with rest }
      match part with
      | .glyph glyph => return .one glyph
      | .edge regex => return regex
      | .caret => return if extended || first then .lineStart else .one (.plain '^')
      | .dollar => return if extended || endsBranch rest then .lineEnd else .one (.plain '$')
      | .times _ _ text =>
          return text.foldr (fun c regex => .both (.one (.plain c)) regex) .empty
      | .back index => return .back index
      | .opening =>
          let index := (← Action.get).groups + 1
          Action.modify fun reading => { reading with groups := index }
          let inner ← alternatives
          match (← Action.get).rest with
          | .closing :: after =>
              Action.modify fun reading => { reading with rest := after }
              return .group index inner
          | _ => Action.fail "Unmatched ( or \\("
      | .closing | .bar => return .empty

/-- The atoms up to the end of a branch. -/
def branch (extended : Bool) (alternatives : Read Regex) : (bound : Nat) → (first : Bool) →
    Read Regex
  | 0, _ => return .empty
  | bound + 1, first => do
      let reading ← Action.get
      if endsBranch reading.rest then return .empty
      else
        let leading : Bool := match reading.rest with
          | .caret :: _ => first
          | _ => false
        let single ← atom extended alternatives first
        let whole ← if leading && !extended then pure single
          else repetitions (reading.rest.length + 1) single
        return .both whole (← branch extended alternatives bound leading)

def alternatives (extended : Bool) : (bound : Nat) → Read Regex
  | 0 => return .empty
  | bound + 1 => do
      let size := (← Action.get).rest.length + 1
      let left ← branch extended (alternatives extended bound) size true
      match (← Action.get).rest with
      | .bar :: rest =>
          Action.modify fun reading => { reading with rest }
          return .either left (← alternatives extended bound)
      | _ => return left

/-- Reads an expression. -/
def ofText (extended : Bool) (text : List Char) : Except String Regex := do
  let found ← parts extended (text.length + 1) text
  match alternatives extended (found.length + 1) ⟨found, 0⟩ with
  | (.error error, _) => throw error
  | (.ok regex, after) =>
      if after.rest.isEmpty then return regex else throw "Unmatched ) or \\)"

/-- The expression of a plain text. -/
def ofPlain (text : List Char) : Regex :=
  text.foldr (fun c regex => .both (.one (.plain c)) regex) .empty

end Regex

end Coroscript.Shell
