import Coroscript.Shell.Printf
import Coroscript.Shell.Tool.Files

namespace Coroscript.Shell

/-! Programs that work on the lines of texts. -/

namespace Tool

/-- The lines of a text, without their ends. -/
def linesOf (text : List Char) : List (List Char) :=
  go text.length text
where
  go : Nat → List Char → List (List Char)
    | 0, _ => []
    | _, [] => []
    | bound + 1, text =>
        let line := text.takeWhile (· != '\n')
        line :: go bound (text.drop (line.length + 1))

/-- The lines of a text, with their ends. The last may have none. -/
def rawLines (text : List Char) : List (List Char) :=
  go text.length text
where
  go : Nat → List Char → List (List Char)
    | 0, _ => []
    | _, [] => []
    | bound + 1, text =>
        let line := text.takeWhile (· != '\n')
        (line ++ (text.drop line.length).take 1) :: go bound (text.drop (line.length + 1))

def unlines (lines : List (List Char)) : String :=
  .ofList (lines.flatMap fun line => line ++ ['\n'])

/-- The contents of the operands, or of the input if there are none; a file that
cannot be read gives a message, and the program goes on. -/
def inputs (operands : List String) (status : Nat) (message : String → OsError → String) :
    Step (List (String × String)) := do
  let mut found := []
  for path in if operands.isEmpty then ["-"] else operands do
    match ← Step.contents path with
    | .ok text => found := found ++ [(path, text)]
    | .error error => Step.failWith status (message path error)
  return found

/-- The message of a program on a file that it cannot read. -/
def unreadable (path : String) (error : OsError) : String :=
  quotedIfNeeded path ++ ": " ++ reason error

def cat (arguments : List String) : Step Unit :=
  Step.withOptions 1 ⟨"AbeEnstTuv".toList, [], []⟩ arguments fun options => do
    for path in if options.operands.isEmpty then ["-"] else options.operands do
      match ← Step.contents path with
      | .ok text =>
          if options.has 'n' then
            for (line, index) in (rawLines text.toList).zipIdx do
              let number := (toString (index + 1)).toList
              let blanks := List.replicate (6 - number.length) ' '
              Step.print (.ofList (blanks ++ number ++ '\t' :: line))
          else Step.print text
      | .error error => Step.failWith 1 (unreadable path error)

/-! Starts and ends. -/

/-- Arguments in which a count stands as a letter of its own. -/
def spellCount : List String → List String
  | [] => []
  | argument :: rest =>
      match argument.toList with
      | '-' :: first :: others =>
          if first.isDigit then "-n" :: .ofList (first :: others) :: rest else argument :: rest
      | _ => argument :: rest

/-- A program that shows a part of its files: `lines` of the lines, `bytes` of
the characters, each by a count. -/
def portion (fromEnd : Bool) (lines : Bool → Nat → List (List Char) → List (List Char))
    (bytes : Bool → Nat → List Char → List Char) (arguments : List String) : Step Unit :=
  Step.withOptions 1 ⟨(if fromEnd then "fFqvz" else "qvz").toList, ['n', 'c'], []⟩ (spellCount arguments) fun options => do
    let (kind, size, ofBytes) := match options.value? 'c', options.value? 'n' with
      | some size, _ => ("bytes", size, true)
      | none, some size => ("lines", size, false)
      | none, none => ("lines", "10", false)
    let (signed, digits) := match size.toList with
      | '+' :: digits => (fromEnd, digits)
      | '-' :: digits => (!fromEnd, digits)
      | digits => (false, digits)
    if digits.isEmpty ∨ !digits.all Char.isDigit then
      Step.failWith 1 ("invalid number of " ++ kind ++ ": " ++ quoted size)
    else
      let count := Arithmetic.digitsValue 10 digits
      let paths := if options.operands.isEmpty then ["-"] else options.operands
      let headed := 1 < paths.length && !options.has 'q'
      for (path, index) in paths.zipIdx do
        match ← Step.contents path with
        | .error error =>
            Step.failWith 1 ("cannot open " ++ quoted path ++ " for reading: " ++
              reason error)
        | .ok text =>
            if headed then
              Step.print ((if index = 0 then "" else "\n") ++ "==> " ++
                (if path = "-" then "standard input" else path) ++ " <==\n")
            if ofBytes then Step.print (.ofList (bytes signed count text.toList))
            else Step.print (.ofList (lines signed count (rawLines text.toList)).flatten)

/-- The first of some items, or all but the last of them. -/
def front {α : Type} (but : Bool) (count : Nat) (items : List α) : List α :=
  items.take (if but then items.length - count else count)

/-- The last of some items, or all from one on. -/
def back {α : Type} (since : Bool) (count : Nat) (items : List α) : List α :=
  items.drop (if since then count - 1 else items.length - count)

def head : List String → Step Unit :=
  portion false front front

def tail : List String → Step Unit :=
  portion true back back

/-! Counts. -/

/-- The number of stretches between blanks. -/
def countWords (inside : Bool) : List Char → Nat
  | [] => if inside then 1 else 0
  | c :: rest =>
      if isInClass "space" c then (if inside then 1 else 0) + countWords false rest
      else countWords true rest

/-- The counts that letters ask for. -/
def counts (letters : List Char) (text : List Char) : List Nat :=
  (if letters.contains 'l' then [text.count '\n'] else []) ++
    (if letters.contains 'w' then [countWords false text] else []) ++
    if letters.contains 'c' then [text.length] else []

def pad (width : Nat) (text : String) : String :=
  .ofList (List.replicate (width - text.length) ' ') ++ text

def wc (arguments : List String) : Step Unit :=
  Step.withOptions 1
    ⟨"lwcmL".toList, [], [("lines", 'l'), ("words", 'w'), ("bytes", 'c'), ("chars", 'm')]⟩ arguments
    fun options => do
      let asked := options.letters.map fun letter => if letter = 'm' then 'c' else letter
      let letters := if asked.isEmpty then ['l', 'w', 'c'] else asked
      let regular := match (← Action.get).stream? 0 with
        | some (_, .file _ _ _) => true
        | _ => false
      let found ← inputs options.operands 1 unreadable
      let size := found.foldl (fun size input => size + input.2.length) 0
      let sized := (toString size).length
      let columns := (counts letters []).length
      let width :=
        if columns = 1 ∧ options.operands.length ≤ 1 then 1
        else if options.operands.isEmpty ∧ !regular then 7 else sized
      let line (numbers : List Nat) (name : String) :=
        " ".intercalate (numbers.map fun n => pad width (toString n)) ++ name ++ "\n"
      for (path, text) in found do
        Step.print (line (counts letters text.toList)
          (if options.operands.isEmpty then "" else " " ++ quotedIfNeeded path))
      if 1 < options.operands.length then
        let totals := found.foldl (fun totals input =>
          List.zipWith (· + ·) totals (counts letters input.2.toList)) (counts letters [])
        Step.print (line totals " total")

/-! Order. -/

/-- The number that a line starts with. -/
def leadingNumber (line : List Char) : Int :=
  let start := line.dropWhile fun c => c == ' ' || c == '\t'
  match start with
  | '-' :: rest => -(Arithmetic.digitsValue 10 (rest.takeWhile Char.isDigit) : Nat)
  | _ => (Arithmetic.digitsValue 10 (start.takeWhile Char.isDigit) : Nat)

/-- Lines without those that follow an equal one. -/
def squeeze : List (List Char) → List (List Char)
  | first :: second :: rest =>
      if first = second then squeeze (second :: rest) else first :: squeeze (second :: rest)
  | lines => lines

def sort (arguments : List String) : Step Unit :=
  Step.withOptions 2
    ⟨"bcCdfghimMnrRsuVz".toList, ['k', 'o', 'S', 't', 'T'], [("reverse", 'r'), ("unique", 'u'), ("numeric-sort", 'n')]⟩
    arguments fun options => do
      let found ← inputs options.operands 2 fun path error =>
        "cannot read: " ++ quotedIfNeeded path ++ ": " ++ reason error
      if found.length = (if options.operands.isEmpty then 1 else options.operands.length) then
        let before (left right : List Char) : Bool :=
          if options.has 'n' && leadingNumber left != leadingNumber right then
            decide (leadingNumber left < leadingNumber right)
          else decide (String.ofList left ≤ String.ofList right)
        let sorted := (found.flatMap fun input => linesOf input.2.toList).mergeSort before
        let unique := if options.has 'u' then squeeze sorted else sorted
        let shown := unlines (if options.has 'r' then unique.reverse else unique)
        match options.value? 'o' with
        | none => Step.print shown
        | some path =>
            let _ ← Step.change (FileTree.write (toText path) (toBytes shown))

/-- Runs of equal lines, with their lengths. -/
def runs : List (List Char) → List (Nat × List Char)
  | [] => []
  | line :: rest =>
      match runs rest with
      | (count, other) :: others =>
          if line = other then (count + 1, line) :: others else (1, line) :: (count, other) :: others
      | [] => [(1, line)]

def uniq (arguments : List String) : Step Unit :=
  Step.withOptions 1 ⟨"cdDiuz".toList, ['f', 's', 'w'], []⟩ arguments fun options => do
    for (_, text) in ← inputs (options.operands.take 1) 1 unreadable do
      let kept := (runs (linesOf text.toList)).filter fun run =>
        (!options.has 'd' || 1 < run.1) && (!options.has 'u' || run.1 = 1)
      for (count, line) in kept do
        let counted := if options.has 'c' then pad 7 (toString count) ++ " " else ""
        Step.print (counted ++ .ofList line ++ "\n")

/-! Parts of lines. -/

/-- The ranges of a list such as `1,3-5`. -/
def ranges? (text : String) : Option (List (Nat × Option Nat)) :=
  (text.splitOn ",").mapM fun item =>
    match item.splitOn "-" with
    | [single] => single.toNat?.map fun n => (n, some n)
    | [first, last] =>
        if first.isEmpty && last.isEmpty then none
        else if last.isEmpty then first.toNat?.map fun n => (n, none)
        else
          match (if first.isEmpty then some 1 else first.toNat?), last.toNat? with
          | some n, some m => some (n, some m)
          | _, _ => none
    | _ => none

/-- The items whose numbers are in some range. -/
def chosen {α : Type} (ranges : List (Nat × Option Nat)) (items : List α) : List α :=
  (items.zipIdx.filter fun item =>
    ranges.any fun range =>
      range.1 ≤ item.2 + 1 && (range.2.map fun last => decide (item.2 + 1 ≤ last)).getD true).map
    Prod.fst

/-- The parts of a text between occurrences of a character. -/
def fieldsOf (delimiter : Char) : List Char → List (List Char)
  | [] => [[]]
  | c :: rest =>
      match fieldsOf delimiter rest with
      | [] => [[c]]
      | first :: others => if c = delimiter then [] :: first :: others else (c :: first) :: others

def cut (arguments : List String) : Step Unit :=
  Step.withOptions 1 ⟨"nsz".toList, ['b', 'c', 'd', 'f'], []⟩ arguments fun options => do
    let delimiter := ((options.value? 'd').bind fun text => text.toList.head?).getD '\t'
    let columns? := (options.value? 'c').orElse fun _ => options.value? 'b'
    match options.value? 'f', columns? with
    | none, none => Step.usage 1 "you must specify a list of bytes, characters, or fields"
    | fields?, _ =>
        match ranges? (fields?.getD (columns?.getD "")) with
        | none => Step.usage 1 "invalid field range"
        | some ranges =>
            for (_, text) in ← inputs options.operands 1 unreadable do
              let lines := linesOf text.toList
              if fields?.isNone then Step.print (unlines (lines.map (chosen ranges)))
              else
                let shown := (lines.filter fun line =>
                  !options.has 's' || line.contains delimiter).map fun line =>
                    if line.contains delimiter then
                      List.intercalate [delimiter] (chosen ranges (fieldsOf delimiter line))
                    else line
                Step.print (unlines shown)

/-! Characters. -/

/-- The characters of a set such as `a-z`; `bound` is more than its length. -/
def set : (bound : Nat) → List Char → List Char
  | 0, _ => []
  | _ + 1, [] => []
  | bound + 1, '\\' :: rest =>
      let (found, after) := Printf.escape false rest
      if found = ['\\'] ∧ after = rest then after.take 1 ++ set bound (after.drop 1)
      else found ++ set bound after
  | bound + 1, '[' :: ':' :: rest =>
      let name := rest.takeWhile Char.isAlpha
      match rest.drop name.length with
      | ':' :: ']' :: after =>
          (((List.range 256).map Char.ofNat).filter (isInClass (.ofList name))) ++ set bound after
      | _ => '[' :: set bound (':' :: rest)
  | bound + 1, first :: '-' :: last :: rest =>
      ((List.range (last.toNat + 1)).drop first.toNat).map Char.ofNat ++ set bound rest
  | bound + 1, c :: rest => c :: set bound rest

def setOf (text : String) : List Char :=
  set (text.length + 1) text.toList

/-- A text without repetitions of the characters in a set. -/
def squeezeRuns (among : List Char) : List Char → List Char
  | first :: second :: rest =>
      if first = second && among.contains first then squeezeRuns among (second :: rest)
      else first :: squeezeRuns among (second :: rest)
  | text => text

/-- What a character becomes: the one at its last place among `from`. -/
def replaced (source target : List Char) (c : Char) : Char :=
  match source.reverse.idxOf? c with
  | none => c
  | some place =>
      let index := source.length - 1 - place
      (target[index]?).getD (target.getLast?.getD c)

def tr (arguments : List String) : Step Unit :=
  Step.withOptions 1 ⟨"cCdst".toList, [], []⟩ (Options.inOrder arguments) fun options => do
    let complement := options.has 'c' || options.has 'C'
    let sets := options.operands.map setOf
    let source := if complement then
        ((List.range 256).map Char.ofNat).filter fun c => !(sets.head?.getD []).contains c
      else sets.head?.getD []
    let run (change : List Char → List Char) : Step Unit := do
      match ← Step.contents "-" with
      | .ok text => Step.print (.ofList (change text.toList))
      | .error _ => pure ()
    match options.operands, options.has 'd', options.has 's' with
    | [], _, _ => Step.usage 1 "missing operand"
    | [_], true, false => run fun text => text.filter fun c => !source.contains c
    | [_], false, true => run (squeezeRuns source)
    | [only], deletes, _ =>
        Step.misused 1 ("missing operand after " ++ quoted only)
          [if deletes then "Two strings must be given when both deleting and squeezing repeats."
            else "Two strings must be given when translating."]
    | [_, extra], true, false =>
        Step.misused 1 ("extra operand " ++ quoted extra)
          ["Only one string may be given when deleting without squeezing repeats."]
    | [_, second], true, true =>
        run fun text => squeezeRuns (setOf second) (text.filter fun c => !source.contains c)
    | [_, second], false, squeezes =>
        let target := setOf second
        run fun text =>
          let changed := text.map (replaced source target)
          if squeezes then squeezeRuns target changed else changed
    | _ :: _ :: extra :: _, _, _ => Step.usage 1 ("extra operand " ++ quoted extra)

/-! Turns and comparisons. -/

/-- Shows what a change makes of the lines of each file. -/
def turned (change : List (List Char) → List (List Char)) (arguments : List String) : Step Unit :=
  Step.withOptions 1 ⟨[], [], []⟩ arguments fun options => do
    for (_, text) in ← inputs options.operands 1 unreadable do
      Step.print (.ofList (change (rawLines text.toList)).flatten)

def tac : List String → Step Unit :=
  turned List.reverse

def rev : List String → Step Unit :=
  turned fun lines => lines.map fun line =>
    let (text, newline) := line.span (· != '\n')
    text.reverse ++ newline

/-- The place where two texts differ first, and the line it is in. -/
def difference? : (place line : Nat) → List Char → List Char → Option (Nat × Nat)
  | place, line, a :: left, b :: right =>
      if a = b then difference? (place + 1) (if a = '\n' then line + 1 else line) left right
      else some (place, line)
  | _, _, _, _ => none

def cmp (arguments : List String) : Step Unit :=
  Step.withOptions 2 ⟨"bls".toList, [], [("silent", 's'), ("quiet", 's')]⟩ arguments fun options => do
    match options.operands with
    | [left, right] =>
        let tell (step : Step Unit) : Step Unit := if options.has 's' then return () else step
        match ← Step.contents left, ← Step.contents right with
        | .error error, _ => do
            tell (Step.remark (unreadable left error))
            Step.finish 2
        | _, .error error => do
            tell (Step.remark (unreadable right error))
            Step.finish 2
        | .ok one, .ok other =>
            match difference? 1 1 one.toList other.toList with
            | some (place, line) => do
                tell (Step.print (left ++ " " ++ right ++ " differ: char " ++ toString place ++
                  ", line " ++ toString line ++ "\n"))
                Step.finish 1
            | none =>
                if one.length = other.length then Step.finish 0
                else
                  let (short, text) := if one.length < other.length then (left, one) else (right, other)
                  let lines := text.toList.count '\n'
                  let spot := if text.toList.getLast? = some '\n'
                    then ", line " ++ toString lines else ", in line " ++ toString (lines + 1)
                  tell (Step.remark (if text.isEmpty then "EOF on " ++ short ++ " which is empty"
                    else "EOF on " ++ short ++ " after byte " ++ toString text.length ++ spot))
                  Step.finish 1
    | [] => Step.usage 2 ("missing operand after " ++ quoted (← Action.get).name)
    | [only] => Step.usage 2 ("missing operand after " ++ quoted only)
    | _ :: _ :: extra :: _ => Step.usage 2 ("extra operand " ++ quoted extra)

/-! Copies and sequences. -/

def tee (arguments : List String) : Step Unit :=
  Step.withOptions 1 ⟨"aip".toList, [], [("append", 'a')]⟩ arguments fun options => do
    match ← Step.contents "-" with
    | .error _ => pure ()
    | .ok text =>
        for path in options.operands do
          let there := (← Action.get).tree.read (toText path)
          let before := if options.has 'a' then there.toOption.getD [] else []
          match pathDescriptor? path with
          | some descriptor =>
              Action.modify fun machine => (machine.write? descriptor text).getD machine
          | none =>
              match ← Step.change (FileTree.write (toText path) (before ++ toBytes text)) with
              | none => pure ()
              | some error => Step.failWith 1 (unreadable path error)
        Step.print text

/-- The numbers from one on, by a step, as long as they do not pass a last one. -/
def sequence (step last : Int) : (bound : Nat) → Int → List Int
  | 0, _ => []
  | bound + 1, n =>
      if (0 < step ∧ last < n) ∨ (step < 0 ∧ n < last) then []
      else n :: sequence step last bound (n + step)

def seq (arguments : List String) : Step Unit := do
  Step.finish 0
  match arguments.find? fun argument => argument.toInt?.isNone with
  | some argument =>
      Step.usage 1 ("invalid floating point argument: " ++ quoted argument)
  | none =>
      let write (first step last : Int) : Step Unit :=
        let size := (last - first).natAbs / max 1 step.natAbs + 1
        Step.print (String.join ((sequence step last size first).map fun n => toString n ++ "\n"))
      match arguments.filterMap String.toInt? with
      | [] => Step.usage 1 "missing operand"
      | [last] => write 1 1 last
      | [first, last] => write first 1 last
      | [first, step, last] => write first step last
      | _ :: _ :: _ :: extra :: _ => Step.usage 1 ("extra operand " ++ quoted (toString extra))

end Tool

end Coroscript.Shell
