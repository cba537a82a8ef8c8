import Coroscript.Shell.Redirect

namespace Coroscript.Shell

/-! The arguments of programs. -/

/-- Arguments told apart. -/
structure Options where
  letters : List Char
  values : List (Char × String)
  operands : List String
deriving Repr

/-- The options that a program knows. -/
structure KnownOptions where
  plain : List Char
  valued : List Char
  /-- The long names of some. -/
  long : List (String × Char)

namespace Options

def addLetter (letter : Char) (options : Options) : Options :=
  { options with letters := letter :: options.letters }

def addValue (letter : Char) (value : String) (options : Options) : Options :=
  { options with values := (letter, value) :: options.values }

def addOperand (operand : String) (options : Options) : Options :=
  { options with operands := operand :: options.operands }

def has (options : Options) (letter : Char) : Bool :=
  options.letters.contains letter

/-- The last value that was given for a letter. -/
def value? (options : Options) (letter : Char) : Option String :=
  options.values.reverse.lookup letter

/-- The options in a cluster of letters; the value of the last may be the next
argument. -/
def cluster (known : KnownOptions) (next? : Option String) :
    List Char → Except String (List Char × Option (Char × String × Bool))
  | [] => .ok ([], none)
  | letter :: rest =>
      if known.valued.contains letter then
        match rest, next? with
        | [], some value => .ok ([], some (letter, value, true))
        | [], none => .error ("option requires an argument -- '" ++ .singleton letter ++ "'")
        | _, _ => .ok ([], some (letter, .ofList rest, false))
      else if known.plain.contains letter then do
        let (letters, value?) ← cluster known next? rest
        return (letter :: letters, value?)
      else .error ("invalid option -- '" ++ .singleton letter ++ "'")

/-- Tells options and operands apart. The options can stand behind operands. -/
def read (known : KnownOptions) : List String → Except String Options
  | [] => .ok ⟨[], [], []⟩
  | "--" :: operands => .ok ⟨[], [], operands⟩
  | argument :: rest =>
      match argument.toList with
      | '-' :: '-' :: long =>
          let name := String.ofList (long.takeWhile (· != '='))
          match known.long.lookup name, long.drop name.length with
          | some letter, '=' :: value => do
              return (← read known rest).addValue letter (.ofList value)
          | some letter, _ => do return (← read known rest).addLetter letter
          | none, _ => .error ("unrecognized option '" ++ argument ++ "'")
      | '-' :: first :: others => do
          let (letters, value?) ← cluster known rest.head? (first :: others)
          let after ← match value? with
            | some (_, _, true) => read known rest.tail
            | _ => read known rest
          let valued := match value? with
            | some (letter, value, _) => after.addValue letter value
            | none => after
          return letters.foldr addLetter valued
      | _ => do return (← read known rest).addOperand argument
termination_by arguments => arguments.length
decreasing_by all_goals simp_wf <;> grind

/-- Arguments in which no option stands behind an operand. -/
def inOrder (arguments : List String) : List String :=
  let isOption (argument : String) := match argument.toList with
    | '-' :: _ :: _ => argument != "--"
    | _ => false
  let first := arguments.takeWhile isOption
  let rest := arguments.drop first.length
  first ++ if rest.head? = some "--" then rest else "--" :: rest

end Options

namespace Step

def print (text : String) : Step Unit :=
  Action.modify fun machine => (machine.write? 1 text).getD machine

/-- A message of a program, which starts with the name that it was called by. -/
def remark (text : String) : Step Unit :=
  Action.modify fun machine => machine.complain (machine.name ++ ": " ++ text)

/-- A message of a program, after which it has failed. -/
def failWith (status : Nat) (text : String) : Step Unit := do
  remark text
  finish status

/-- The messages of a program that is used in a wrong way. -/
def misused (status : Nat) (text : String) (more : List String) : Step Unit := do
  remark text
  for line in more do
    complain line
  complain ("Try '" ++ (← Action.get).name ++ " --help' for more information.")
  finish status

/-- The messages of a program that is used in a wrong way. -/
def usage (status : Nat) (text : String) : Step Unit :=
  misused status text []

/-- Runs a program on its options, unless there are some that it does not know. -/
def withOptions (status : Nat) (known : KnownOptions) (arguments : List String)
    (step : Options → Step Unit) : Step Unit := do
  match Options.read known arguments with
  | .ok options =>
      finish 0
      step options
  | .error message => usage status message

/-- The contents of a file, or of the input for `-`. -/
def contents (path : String) : Step (Except OsError String) := do
  let machine ← Action.get
  if path = "-" then
    let (text, after) := machine.readAll 0
    Action.modify fun _ => after
    return .ok text
  else
    match pathDescriptor? path with
    | some descriptor =>
        let (text, after) := machine.readAll descriptor
        Action.modify fun _ => after
        return .ok text
    | none => return (machine.tree.read (toText path)).map ofBytes

/-- Lets a change of the files happen, or tells why it does not. -/
def change (action : Action OsError FileTree Unit) : Step (Option OsError) :=
  fun machine =>
    match action machine.tree with
    | (.ok _, tree) => (.ok none, { machine with tree })
    | (.error error, tree) => (.ok (some error), { machine with tree })

end Step

end Coroscript.Shell
