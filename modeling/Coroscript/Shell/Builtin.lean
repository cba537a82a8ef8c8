import Coroscript.Shell.Condition
import Coroscript.Shell.Tool.Options
import Coroscript.Shell.Printf

namespace Coroscript.Shell

/-! The commands that are part of the shell, except those that run others. -/

namespace Builtin

/-- The names of the built-in commands. -/
def names : List String :=
  specialBuiltins ++
    ["[", "alias", "bg", "cd", "chdir", "command", "echo", "false", "fg", "getopts", "hash", "jobs",
      "kill", "local", "printf", "pwd", "read", "test", "true", "type", "ulimit", "umask",
      "unalias", "wait"]

/-- Writes a text, or tells that it could not. -/
def put (text : String) : Step Unit := do
  match (← Action.get).write? 1 text with
  | some machine =>
      Action.modify fun _ => machine
      Step.finish 0
  | none =>
      if text.isEmpty then Step.finish 0
      else
        let machine ← Action.get
        Step.refuse ((machine.speaker?.getD "") ++ ": I/O error") 1

def echo (arguments : List String) : Step Unit :=
  put (Printf.echo arguments)

def printf (arguments : List String) : Step Unit := do
  match arguments with
  | [] => Step.fatal "usage: printf format [arg ...]"
  | "--" :: text :: rest => write text rest
  | text :: rest => write text rest
where
  write (text : String) (rest : List String) : Step Unit := do
    let (state, message?) := Printf.format text rest
    for message in state.messages ++ message?.toList do
      Step.refuse message 1
    put (.ofList state.written)
    if message?.isSome then Step.finish 2
    else if state.failed then Step.finish 1

def test (words : List String) : Step Unit := do
  match Condition.holds (← Action.get).tree words with
  | .ok truth => Step.ofBool truth
  | .error message => Step.fatal message

def bracket (words : List String) : Step Unit :=
  if words.getLast? = some "]" then test words.dropLast else Step.fatal "missing ]"

/-! Numbers in arguments. -/

def number (text : String) : Step Nat :=
  if text.toList.isEmpty || !text.toList.all Char.isDigit then
    Step.fatal ("Illegal number: " ++ text)
  else return Arithmetic.digitsValue 10 text.toList

/-- The status that the first argument tells, or the last one. -/
def statusOf (arguments : List String) : Step Nat := do
  match arguments with
  | text :: _ => number text
  | [] => return (← Action.get).status

def exit (arguments : List String) : Step Unit := do
  let status ← statusOf arguments
  Step.finish (status % 256)
  Action.fail .exit

def leave (arguments : List String) : Step Unit := do
  let status ← statusOf arguments
  Step.finish (status % 256)
  Action.fail .leave

/-- Leaves loops, or goes on with the next round of one. -/
def jump (interrupt : Nat → Interrupt) (arguments : List String) : Step Unit := do
  let count ← match arguments with
    | text :: _ => number text
    | [] => pure 1
  if count = 0 then Step.fatal ("Illegal number: " ++ arguments.head?.getD "")
  else
    let machine ← Action.get
    Step.finish 0
    if machine.loops = 0 then return ()
    else Action.fail (interrupt (min count machine.loops))

def shift (arguments : List String) : Step Unit := do
  let count ← match arguments with
    | text :: _ => number text
    | [] => pure 1
  let machine ← Action.get
  if machine.arguments.length < count then Step.fatal "can't shift that many"
  else
    Action.modify fun machine => { machine with arguments := machine.arguments.drop count }
    Step.finish 0

/-! Options. -/

def optionNames : List (String × Char) :=
  [("errexit", 'e'), ("noglob", 'f'), ("ignoreeof", 'I'), ("interactive", 'i'), ("monitor", 'm'),
    ("noexec", 'n'), ("stdin", 's'), ("xtrace", 'x'), ("verbose", 'v'), ("vi", 'V'), ("emacs", 'E'),
    ("noclobber", 'C'), ("allexport", 'a'), ("notify", 'b'), ("nounset", 'u')]

def setOption (on : Bool) (letter : Char) : Step Unit :=
  Action.modify fun machine =>
    let others := machine.options.filter (· != letter)
    { machine with options := if on then letter :: others else others }

def setLetters (on : Bool) : List Char → Step Unit
  | [] => return ()
  | letter :: rest => do
      if optionNames.any fun entry => entry.2 = letter then
        setOption on letter
        setLetters on rest
      else Step.fatal ("Illegal option -" ++ .singleton letter)

def setNamed (on : Bool) (name : String) : Step Unit := do
  match optionNames.lookup name with
  | some letter => setOption on letter
  | none => Step.fatal ("Illegal option " ++ (if on then "-o " else "+o ") ++ name)

/-- Turns options on and off. The result is what follows them, unless the
arguments stay as they are. -/
def options : List String → Step (Option (List String))
  | [] => return none
  | argument :: rest => do
      match argument.toList with
      | ['-', '-'] => return some rest
      | ['-'] =>
          setOption false 'x'
          setOption false 'v'
          return if rest.isEmpty then none else some rest
      | sign :: letters =>
          if sign ≠ '-' ∧ sign ≠ '+' then return some (argument :: rest)
          else
            setLetters (sign = '-') (letters.filter (· != 'o'))
            if letters.contains 'o' then
              match rest with
              | [] => return none
              | name :: others =>
                  setNamed (sign = '-') name
                  options others
            else options rest
      | [] => return some (argument :: rest)

/-- A value in quotes that a script reads back. -/
def inQuotes (value : String) : String :=
  "'" ++ value.replace "'" "'\"'\"'" ++ "'"

def set (arguments : List String) : Step Unit := do
  if arguments.isEmpty then
    let bindings := (← Action.get).bindings.mergeSort fun left right => left.name ≤ right.name
    let shown := bindings.filterMap fun binding =>
      binding.value?.map fun value => binding.name ++ "=" ++ inQuotes value ++ "\n"
    put (String.join shown)
  else
    match ← options arguments with
    | some rest => Action.modify fun machine => { machine with arguments := rest }
    | none => pure ()
    Step.finish 0

/-! Variables. -/

/-- The name of an argument, and its value behind an equals sign. -/
def nameAndValue (argument : String) : String × Option String :=
  let name := argument.toList.takeWhile (· != '=')
  match argument.toList.drop name.length with
  | '=' :: value => (.ofList name, some (.ofList value))
  | _ => (.ofList name, none)

/-- Gives variables values, and changes their bindings. -/
def declare (change : Binding → Binding) : List String → Step Unit
  | [] => Step.finish 0
  | argument :: rest => do
      let (name, value?) := nameAndValue argument
      if !isName name then Step.fatal (argument ++ ": bad variable name")
      else
        match value? with
        | some value => Step.assign name value
        | none => pure ()
        Action.modify fun machine =>
          let binding := (machine.binding? name).getD ⟨name, none, false, false⟩
          machine.bind (change binding)
        declare change rest

/-- Shows the bindings of a kind, or declares some of it. -/
def declaration (word : String) (isKind : Binding → Bool) (change : Binding → Binding)
    (arguments : List String) : Step Unit := do
  match arguments with
  | [] | ["-p"] =>
      let bindings := ((← Action.get).bindings.filter isKind).mergeSort fun left right =>
        left.name ≤ right.name
      put (String.join (bindings.map fun binding =>
        word ++ " " ++ binding.name ++
          (match binding.value? with
          | some value => "=" ++ inQuotes value
          | none => "") ++ "\n"))
  | "--" :: rest => declare change rest
  | _ => declare change arguments

def unsetAll (function : Bool) : List String → Step Unit
  | [] => Step.finish 0
  | name :: rest => do
      if function then
        Action.modify fun machine =>
          { machine with functions := machine.functions.filter fun entry => entry.1 != name }
      else if !isName name then Step.fatal (name ++ ": bad variable name")
      else
        match (← Action.get).binding? name with
        | some ⟨_, _, _, true⟩ => Step.fatal (name ++ ": is read only")
        | _ => Action.modify (Machine.unbind · name)
      unsetAll function rest

def unset (arguments : List String) : Step Unit :=
  match arguments with
  | "-f" :: names => unsetAll true names
  | "-v" :: names | "--" :: names => unsetAll false names
  | names => unsetAll false names

/-- Lets variables belong to the running function. -/
def localNames : List String → Step Unit
  | [] => Step.finish 0
  | argument :: rest => do
      let (name, value?) := nameAndValue argument
      if !isName name then Step.fatal (argument ++ ": bad variable name")
      else
        Action.modify fun machine =>
          match machine.frames with
          | frame :: frames =>
              if frame.any fun entry => entry.1 == name then machine
              else { machine with frames := ((name, machine.binding? name) :: frame) :: frames }
          | [] => machine
        match value? with
        | some value => Step.assign name value
        | none => pure ()
        localNames rest

def «local» (arguments : List String) : Step Unit := do
  if (← Action.get).frames.isEmpty then Step.fatal "not in a function"
  else localNames arguments

/-! Directories. -/

/-- The path of an address, as a byte text. -/
def pathOf (address : Address) : String :=
  ofText ("/" ++ "/".intercalate address)

def cd (arguments : List String) : Step Unit := do
  let machine ← Action.get
  let operands := arguments.filter fun argument => !(["-L", "-P", "--"].contains argument)
  let (target, shown) := match operands with
    | [] => (machine.value "HOME", false)
    | "-" :: _ => (machine.value "OLDPWD", true)
    | path :: _ => (path, false)
  match machine.tree.stat (if target.isEmpty then "." else toText target) with
  | .ok (address, .directory) =>
      let old := machine.value "PWD"
      Action.modify fun machine => { machine with tree := { machine.tree with working := address } }
      Step.assign "OLDPWD" old
      Step.assign "PWD" (pathOf address)
      if shown then put (pathOf address ++ "\n") else Step.finish 0
  | _ => Step.fatal ("can't cd to " ++ target)

def pwd (_ : List String) : Step Unit := do
  put (pathOf (← Action.get).tree.working ++ "\n")

/-! Input. -/

/-- A line of input: its characters, with a mark on those that a backslash keeps,
the number of characters it takes, and whether it has an end. -/
def line (raw : Bool) : List Char → List Marked × Nat × Bool
  | [] => ([], 0, false)
  | '\n' :: _ => ([], 1, true)
  | '\\' :: c :: rest =>
      let (found, count, ended) := line raw rest
      if raw then
        if c = '\n' then ([('\\', false)], 2, true)
        else (('\\', false) :: (c, false) :: found, count + 2, ended)
      else if c = '\n' then (found, count + 2, ended)
      else ((c, true) :: found, count + 2, ended)
  | c :: rest =>
      let (found, count, ended) := line raw rest
      ((c, false) :: found, count + 1, ended)

/-- Gives the fields of a line to names; the last name takes the rest. -/
def distribute (separators : List Char) : List String → List Marked → List (String × String)
  | [], _ => []
  | [name], marks =>
      let isBlank (mark : Marked) := !mark.2 && separators.contains mark.1 && Fields.isBlank mark.1
      let trimmed := ((marks.dropWhile isBlank).reverse.dropWhile isBlank).reverse
      let last := match trimmed.reverse with
        | (c, false) :: before =>
            if separators.contains c && !before.any fun mark =>
                !mark.2 && separators.contains mark.1
            then before.reverse else trimmed
        | _ => trimmed
      [(name, .ofList (last.map Prod.fst))]
  | name :: names, marks =>
      let isSeparator (mark : Marked) := !mark.2 && separators.contains mark.1
      let isBlank (mark : Marked) := isSeparator mark && Fields.isBlank mark.1
      let start := marks.dropWhile isBlank
      let field := start.takeWhile fun mark => !isSeparator mark
      let behind := (start.drop field.length).dropWhile isBlank
      let rest := match start.drop field.length, behind with
        | first :: _, second :: after =>
            if !isBlank first then (start.drop field.length).tail
            else if isSeparator second then after else behind
        | first :: others, [] => if isBlank first then [] else others
        | [], _ => []
      (name, .ofList (field.map Prod.fst)) :: distribute separators names rest

def read (arguments : List String) : Step Unit := do
  let raw := arguments.contains "-r"
  let names := arguments.filter fun argument => argument != "-r" && argument != "--"
  match names with
  | [] => Step.fatal "arg count"
  | _ =>
      match names.find? fun name => !isName name with
      | some name => Step.fatal (name ++ ": bad variable name")
      | none =>
          let machine ← Action.get
          let (marks, count, ended) := line raw ((machine.readable? 0).getD "").toList
          Action.modify (Machine.skip · 0 count)
          for (name, value) in distribute machine.separators names marks do
            Step.assign name value
          Step.ofBool ended

/-! Traps and others. -/

def trap (arguments : List String) : Step Unit := do
  let isExit (name : String) := name == "EXIT" || name == "0"
  match arguments with
  | action :: names =>
      if names.any isExit then
        Action.modify fun machine =>
          { machine with farewell? := if action = "-" then none else some action }
      else if names.isEmpty ∧ isExit action then
        Action.modify fun machine => { machine with farewell? := none }
      Step.finish 0
  | [] => Step.finish 0

def umask (arguments : List String) : Step Unit :=
  if arguments.isEmpty then put "0022\n" else Step.finish 0

/-- A signal to the script itself ends it at once. -/
def kill (arguments : List String) : Step Unit := do
  let machine ← Action.get
  let targets := arguments.filter fun argument => argument.toList.head? != some '-'
  if targets.contains ((machine.parameter? "$").getD "") then
    Action.modify fun machine => { (machine.finish 137) with farewell? := none }
    Action.fail .exit
  else Step.fatal "No such process"

/-- The built-in command of a name, unless it runs others. -/
def run? (name : String) : Option (List String → Step Unit) :=
  match name with
  | ":" | "true" => some fun _ => Step.finish 0
  | "false" => some fun _ => Step.finish 1
  | "echo" => some echo
  | "printf" => some printf
  | "test" => some test
  | "[" => some bracket
  | "exit" => some exit
  | "return" => some leave
  | "break" => some (jump .stop)
  | "continue" => some (jump .again)
  | "shift" => some shift
  | "set" => some set
  | "export" => some (declaration "export" Binding.exported fun binding =>
      { binding with exported := true })
  | "readonly" => some (declaration "readonly" Binding.readonly fun binding =>
      { binding with readonly := true })
  | "unset" => some unset
  | "local" => some «local»
  | "cd" | "chdir" => some cd
  | "pwd" => some pwd
  | "read" => some read
  | "trap" => some trap
  | "umask" => some umask
  | "kill" => some kill
  | "wait" | "hash" | "jobs" | "ulimit" | "times" | "unalias" => some fun _ => Step.finish 0
  | _ => none

end Builtin

end Coroscript.Shell
