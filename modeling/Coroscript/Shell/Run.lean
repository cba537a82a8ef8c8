import Coroscript.Shell.Tool

namespace Coroscript.Shell

/-! Running commands. The steps are over `recurse`, which runs the commands that
stand inside a command. -/

namespace Step

/-- Runs a step whose outcome is looked at or not. -/
def withTested (tested : Bool) (step : Step Unit) : Step Unit :=
  fun machine =>
    let (result, after) := step { machine with tested }
    (result, { after with tested := machine.tested })

/-- Ends the script after a failure, where the options ask for it. -/
def checkStatus : Step Unit := do
  let machine ← Action.get
  if machine.status ≠ 0 ∧ machine.has 'e' ∧ !machine.tested then Action.fail .exit
  else return ()

/-- One round of a loop: whether another follows. -/
def round (step : Step Bool) : Step Bool :=
  fun machine =>
    let (result, after) := step { machine with loops := machine.loops + 1 }
    let left := { after with loops := machine.loops }
    match result with
    | .error (.stop (count + 2)) => (.error (.stop (count + 1)), left)
    | .error (.stop _) => (.ok false, left)
    | .error (.again (count + 2)) => (.error (.again (count + 1)), left)
    | .error (.again _) => (.ok true, left)
    | _ => (result, left)

/-- Runs a step as a built-in command, of which messages tell the name. The
errors of those that are not special do not go further. -/
def asBuiltin (name : String) (special : Bool) (step : Step Unit) : Step Unit :=
  fun machine =>
    let (result, after) := step { machine with speaker? := some name }
    let left := { after with speaker? := machine.speaker? }
    match result, special with
    | .error .error, false => (.ok (), left)
    | _, _ => (result, left)

/-- Runs a step as a program of its own, which sees the exported variables only. -/
def asProgram (name : String) (arguments : List String) (step : Step Unit) : Step Unit :=
  isolated fun machine =>
    let fresh := Machine.start machine.tree name arguments
    let exported := machine.bindings.filter Binding.exported
    let started := exported.foldl Machine.bind fresh
    step { started with descriptors := machine.descriptors, streams := machine.streams }

/-- Writes what is about to be run, where the options ask for it. -/
def trace (index? : Option Nat) (words : List String) : Step Unit :=
  Action.modify fun machine =>
    match machine.has 'x', index? with
    | true, some index =>
        let text := machine.value "PS4" ++ " ".intercalate words ++ "\n"
        (machine.writeStream? index text).getD machine
    | _, _ => machine

section Running

variable (recurse : Command → Step Unit)

def runList : List Command → Step Unit
  | [] => return ()
  | command :: commands => do
      recurse command
      runList commands

/-- Runs the text of a script, up to a line that cannot be read. -/
def runText (text : String) : Step Unit := do
  let script := Script.ofText text
  runList recurse script.commands
  match script.error? with
  | some error =>
      Action.modify fun machine => { machine with line := error.line }
      fatal error.message
  | none => return ()

/-- Runs a step, and then what is to be run at the end. -/
def finishing (step : Step Unit) : Step Unit :=
  fun machine =>
    let (result, after) := step { machine with farewell? := none }
    match after.farewell? with
    | none => (result, after)
    | some text =>
        match runText recurse text { after with farewell? := none } with
        | (.error .exit, last) => (result, last)
        | (_, last) => (result, last.finish after.status)

/-- Runs a step as a script of its own that shares the variables. -/
def subshell (step : Step Unit) : Step Unit :=
  isolated (finishing recurse step)

/-- What commands write, without the newlines at the end. -/
def substitute (body : List Command) : Step String :=
  fun machine =>
    let index := machine.streams.length
    let inside := { (machine.openStream 1 (.kept "")) with tested := false }
    let (_, after) := subshell recurse (runList recurse body) inside
    let text := (((after.kept index).toList.filter (· != '\x00')).reverse.dropWhile (· == '\n')).reverse
    let left := { after with
      descriptors := machine.descriptors
      streams := after.streams.take index
      tested := machine.tested
      status := machine.status
      substituted := after.status }
    (.ok (.ofList text), left)

/-- Runs commands each of which reads what the one before it writes. -/
def pipe : List Command → Step Unit
  | [] => return ()
  | [last] => subshell recurse (recurse last)
  | first :: rest => fun machine =>
      let index := machine.streams.length
      let (_, after) := subshell recurse (recurse first) (machine.openStream 1 (.kept ""))
      let outer := { after with descriptors := machine.descriptors }
      let fed := outer.openStream 0 (.input (after.kept index))
      let (result, last) := pipe rest fed
      (result, { last with descriptors := machine.descriptors })

/-- How many functions can call one another. -/
def maxCalls : Nat :=
  1000

/-- Runs the body of a function. -/
def call (body : Command) (arguments : List String) : Step Unit := do
  if maxCalls ≤ (← Action.get).frames.length then
    fatal "Maximum function recursion depth (1000) reached"
  else fun machine =>
    let (result, after) := recurse body
      { machine with arguments, loops := 0, frames := [] :: machine.frames }
    let restored := (after.frames.head?.getD []).foldl (fun machine entry =>
      match entry.2 with
      | some binding => machine.bind binding
      | none => machine.unbind entry.1) after
    let left := { restored with
      arguments := machine.arguments
      loops := machine.loops
      frames := machine.frames }
    match result with
    | .error .leave => (.ok (), left)
    | _ => (result, left)

/-! Programs. -/

/-- Runs a shell: a text after `-c`, a script file, or the input. -/
def shell (name : String) (arguments : List String) : Step Unit := do
  let isOption (argument : String) := match argument.toList with
    | '-' :: _ :: _ | '+' :: _ :: _ => true
    | _ => false
  let given := arguments.takeWhile isOption
  let letters := given.flatMap fun argument => argument.toList.tail
  let rest := match arguments.drop given.length with
    | "-" :: rest => rest
    | rest => rest
  let set : Step Unit := do
    let _ ← Builtin.options ((given.map fun argument =>
      String.ofList (argument.toList.filter (· != 'c'))).filter (· != "-"))
  let run (own : String) (others : List String) (text : String) : Step Unit :=
    asProgram name others <| finishing recurse do
      set
      Action.modify fun machine => { machine with name := own }
      runText recurse text
  match letters.contains 'c', rest with
  | true, text :: own :: others => run own others text
  | true, [text] => run name [] text
  | true, [] => run name [] ""
  | false, path :: others =>
      match ← contents path with
      | .ok text => run path others text
      | .error error =>
          complain (name ++ ": 0: cannot open " ++ path ++ ": " ++
            shellReason "No such file" error)
          finish 2
  | false, [] =>
      match ← contents "-" with
      | .ok text => run name [] text
      | .error _ => return ()

/-- How many bytes of a script the system looks at. -/
def headerBytes : Nat :=
  256

/-- The interpreter that the first line of a script names, and its argument. The
name is empty if nothing but blanks follows to the end of the script. -/
def interpreter? (text : List UInt8) : Option (String × Option String) :=
  let isBlank (c : Char) := c == ' ' || c == '\t'
  let header := text.take headerBytes
  match (ofBytes (header.takeWhile (· != 10))).toList with
  | '#' :: '!' :: line =>
      let start := line.dropWhile isBlank
      let program := start.takeWhile fun c => !isBlank c
      let argument := ((start.drop program.length).dropWhile isBlank).reverse.dropWhile isBlank
      let isCut := !header.contains 10 && headerBytes ≤ text.length && program.length = start.length
      if isCut || (program.isEmpty && header.contains 10) then none
      else some (.ofList program,
        if argument.isEmpty then none else some (.ofList argument.reverse))
  | _ => none

/-- The path of a program that is found by its name. -/
def search (machine : Machine) (name : String) : Option String :=
  (machine.value "PATH").splitOn ":" |>.findSome? fun directory =>
    let path := if directory.isEmpty then name else Tool.within directory name
    if Tool.directories.contains directory && Tool.isProgram name then some path
    else
      match machine.tree.stat (toText path) with
      | .ok (_, .file _ true) => some path
      | _ => none

/-- How many scripts can be run by one another. -/
def maxScripts : Nat :=
  6

/-- Runs a program of the system that is called by some name. -/
def systemProgram (name called : String) (arguments : List String) : Step Unit :=
  if Tool.shells.contains name then shell recurse called arguments
  else
    match Tool.run? name with
    | some step => asProgram called arguments (step arguments)
    | none => return ()

/-- Runs the program that words name, with the variables that they set. `start`
runs a program by its path and the name that it is called by. -/
def withEnvironment (start : String → String → List String → Step (Option OsError))
    (called : String) (words : List String) : Step Unit := do
  let given := words.takeWhile fun word => word.toList.contains '='
  let before := (← Action.get).bindings
  for setting in given do
    let (name, value?) := Builtin.nameAndValue setting
    Action.modify (Machine.bind · ⟨name, value?, true, false⟩)
  match words.drop given.length with
  | [] => asProgram called [] (Tool.printenv [])
  | name :: others =>
      let machine ← Action.get
      let path? := if name.toList.contains '/' then some name else search machine name
      let error? ← match path? with
        | none => pure (some .notFound)
        | some path => start path name others
      match error? with
      | none => pure ()
      | some error =>
          complain (called ++ ": " ++ quoted name ++ ": " ++ reason error)
          if name.toList.contains ' ' then
            complain (called ++ ": use -[v]S to pass options in shebang lines")
          finish (if error = .notFound then 127 else 126)
  Action.modify fun machine => { machine with bindings := before }

/-- Runs a program in an environment that its arguments describe. -/
def environment (start : String → String → List String → Step (Option OsError))
    (called : String) (arguments : List String) : Step Unit :=
  match Options.read ⟨"i0v".toList, ['C', 'S', 'u'], []⟩ (Options.inOrder arguments) with
  | .error message => asProgram called [] (usage 125 message)
  | .ok options =>
      let split := match options.value? 'S' with
        | some text => (text.splitOn " ").filter (· != "")
        | none => []
      withEnvironment start called (split ++ options.operands)

/-- Runs the program at a path, or tells why it cannot be started. A script can
be run by a program that is a script itself, at most `bound` deep. -/
def program : (bound : Nat) → (path called : String) → (arguments : List String) →
    Step (Option OsError)
  | 0, _, _, _ => return some (.other "Too many levels of symbolic links (os error 40)")
  | bound + 1, path, called, arguments => do
      match Tool.named? path with
      | some "env" =>
          environment (program bound) called arguments
          return none
      | some name =>
          systemProgram recurse name called arguments
          return none
      | none =>
          match (← Action.get).tree.stat (toText path) with
          | .error error => return some error
          | .ok (_, .file text true) =>
              match interpreter? text with
              | none => return some .execFormat
              | some (named, argument?) =>
                  if named.isEmpty then return some .permissionDenied
                  else program bound named named (argument?.toList ++ path :: arguments)
          | .ok _ => return some .permissionDenied

/-- Runs the program of a command, by its path or by its name. -/
def external (name : String) (arguments : List String) : Step Unit := do
  let machine ← Action.get
  let path? := if name.toList.contains '/' then some name else search machine name
  match path? with
  | none =>
      let isDirectory := ["", ".", ".."].contains name
      refuse (name ++ if isDirectory then ": Permission denied" else ": not found") 127
  | some path =>
      match ← program recurse maxScripts path name arguments with
      | none => return ()
      | some .execFormat =>
          let text := (machine.tree.read (toText path)).toOption.getD []
          asProgram path arguments (finishing recurse (runText recurse (ofBytes text)))
      | some error =>
          let missing := error = .notFound || error = .notDirectory || error = .nameTooLong
          refuse (name ++ ": " ++ shellReason "not found" error) (if missing then 127 else 126)

/-! Simple commands. -/

/-- The words that only the shell itself reads. -/
def describe (verbose : Bool) (name : String) : Step Bool := do
  let machine ← Action.get
  let tell (what : String) (short : String) : Step Bool := do
    Builtin.put ((if verbose then name ++ " is " ++ what else short) ++ "\n")
    return true
  if Reader.keywords.contains name then tell "a shell keyword" name
  else if machine.functions.any fun entry => entry.1 == name then tell "a shell function" name
  else if specialBuiltins.contains name then tell "a special shell builtin" name
  else if Builtin.names.contains name then tell "a shell builtin" name
  else if name.toList.contains '/' then
    if machine.tree.has (toText name) || (Tool.named? name).isSome then tell name name
    else missing
  else
    match search machine name with
    | some path => tell path path
    | none => missing
where
  missing : Step Bool := do
    if verbose then Builtin.put (name ++ ": not found\n")
    return false

def describeAll (verbose : Bool) (names : List String) : Step Unit := do
  let mut found := true
  for name in names do
    if !(← describe verbose name) then found := false
  finish (if found then 0 else 127)

/-- Runs the text of another file in this script. -/
def source (arguments : List String) : Step Unit := do
  match arguments with
  | [] => Step.finish 0
  | path :: _ =>
      let machine ← Action.get
      let found? := if path.toList.contains '/' then some path
        else (machine.value "PATH").splitOn ":" |>.findSome? fun directory =>
          let inside := if directory.isEmpty then path else Tool.within directory path
          if machine.tree.has (toText inside) then some inside else none
      match found? with
      | none => fatal (path ++ ": not found")
      | some path =>
          match machine.tree.read (toText path) with
          | .error error => fatal ("cannot open " ++ path ++ ": " ++ shellReason "No such file" error)
          | .ok text => fun machine =>
              let (result, after) := runText recurse (ofBytes text)
                { machine with speaker? := some path, status := 0 }
              match result with
              | .error .leave => (.ok (), after)
              | _ => (result, after)

/-- Runs a command by its name; functions can be passed over. -/
def dispatch (functions special : Bool) : (bound : Nat) → List String → Step Unit
  | 0, _ => return ()
  | _ + 1, [] => return ()
  | bound + 1, name :: arguments => do
      let machine ← Action.get
      let isSpecial := specialBuiltins.contains name
      let function? := if functions && !isSpecial then machine.functions.lookup name else none
      match function? with
      | some body => call recurse body arguments
      | none =>
          let builtin (step : Step Unit) : Step Unit :=
            asBuiltin name (isSpecial && special) step
          match name with
          | "eval" =>
              builtin do
                finish 0
                runText recurse (" ".intercalate arguments)
          | "." => builtin (source recurse arguments)
          | "exec" =>
              if arguments.isEmpty then finish 0
              else
                builtin do
                  external recurse (arguments.head?.getD "") arguments.tail
                  Action.fail .exit
          | "type" => builtin (describeAll true arguments)
          | "command" =>
              match arguments with
              | "-v" :: names => builtin (describeAll false names)
              | "-V" :: names => builtin (describeAll true names)
              | rest => dispatch false false bound rest
          | _ =>
              match Builtin.run? name with
              | some step => builtin (step arguments)
              | none => external recurse name arguments

/-- The commands whose arguments can be assignments. -/
def isDeclaration (name : String) : Bool :=
  ["export", "readonly", "local", "alias"].contains name

/-- The texts of the words of a command. -/
def commandTexts : List Word → Step (List String)
  | [] => return []
  | first :: rest => do
      let texts ← wordTexts (substitute recurse) first
      match texts with
      | [] => commandTexts rest
      | name :: _ =>
          if isDeclaration name then
            let others ← rest.mapM fun word =>
              match assignment? word with
              | some _ => do return [← wordText (substitute recurse) word]
              | none => wordTexts (substitute recurse) word
            return texts ++ others.flatten
          else return texts ++ (← wordsTexts (substitute recurse) rest)

/-- The values of assignments. -/
def settings : List (String × Word) → Step (List (String × String))
  | [] => return []
  | (name, word) :: rest => do
      let value ← wordText (substitute recurse) word
      return (name, value) :: (← settings rest)

/-- Runs a step with variables that have their values in it only. -/
def withSettings (values : List (String × String)) (step : Step Unit) : Step Unit :=
  fun machine =>
    let prepared : Step Unit := do
      for (name, value) in values do
        assign name value
        Action.modify fun machine =>
          match machine.binding? name with
          | some binding => machine.bind { binding with exported := true }
          | none => machine
      step
    let (result, after) := prepared machine
    (result, values.foldl (fun after setting =>
      match machine.binding? setting.1 with
      | some binding => after.bind binding
      | none => after.unbind setting.1) after)

def runSimple (line : Nat) (assignments : List (String × Word)) (words : List Word)
    (redirections : List Redirection) : Step Unit := do
  atLine line
  Action.modify fun machine => { machine with substituted := 0 }
  let texts ← commandTexts recurse words
  let messages? := (← Action.get).descriptors.lookup 2
  let isSpecial := match texts with
    | name :: _ => specialBuiltins.contains name
    | [] => false
  let run : Step Unit := do
    let values ← match texts with
      | [] => do
          let mut done := []
          for (name, word) in assignments do
            let value ← wordText (substitute recurse) word
            assign name value
            done := done ++ [(name, value)]
          pure done
      | _ => settings recurse assignments
    if !(texts.isEmpty && values.isEmpty) then
      trace messages? (values.map (fun value => value.1 ++ "=" ++ value.2) ++ texts)
    if texts.isEmpty then finish (← Action.get).substituted
    else if isSpecial then
      for (name, value) in values do
        assign name value
      dispatch recurse true true (texts.length + 1) texts
    else withSettings values (dispatch recurse true true (texts.length + 1) texts)
  let failed : Step Unit := if isSpecial then Action.fail .error else return ()
  if texts = ["exec"] then
    if ← redirectAll (substitute recurse) redirections then run else failed
  else redirected (substitute recurse) redirections failed run
  checkStatus

/-! Commands with others inside. -/

def runLoop (outcome : Bool) (condition body : List Command) : (bound last : Nat) → Step Unit
  | 0, last => finish last
  | bound + 1, last => do
      let goesOn ← round do
        withTested true (runList recurse condition)
        if ((← Action.get).status == 0) == outcome then
          runList recurse body
          return true
        else
          finish last
          return false
      if goesOn then runLoop outcome condition body bound (← Action.get).status else return ()

def runEach (name : String) (body : List Command) : List String → Step Unit
  | [] => return ()
  | value :: values => do
      let goesOn ← round do
        assign name value
        runList recurse body
        return true
      if goesOn then runEach name body values else return ()

/-- Whether a text fits one of some patterns. -/
def fitsSome (text : List Char) : List Word → Step Bool
  | [] => return false
  | word :: words => do
      let pattern ← wordPattern (substitute recurse) word
      if pattern.accepts text then return true else fitsSome text words

def runClauses (text : List Char) : List (List Word × List Command) → Step Unit
  | [] => finish 0
  | (patterns, body) :: clauses => do
      if ← fitsSome recurse text patterns then
        if body.isEmpty then finish 0 else runList recurse body
      else runClauses text clauses

/-- The most rounds of a loop. -/
def maxRounds : Nat :=
  1000000

/-- Runs a command. -/
def perform : Command → Step Unit
  | .simple line assignments words redirections =>
      runSimple recurse line assignments words redirections
  | .redirected line command redirections => do
      atLine line
      redirected (substitute recurse) redirections checkStatus (recurse command)
  | .negate command => do
      withTested true (recurse command)
      ofBool ((← Action.get).status != 0)
  | .pipeline commands => do
      pipe recurse commands
      checkStatus
  | .both left right => do
      withTested true (recurse left)
      if (← Action.get).status = 0 then recurse right else return ()
  | .either left right => do
      withTested true (recurse left)
      if (← Action.get).status = 0 then return () else recurse right
  | .background command => do
      subshell recurse (recurse command)
      finish 0
  | .subshell line body redirections => do
      atLine line
      subshell recurse
        (redirected (substitute recurse) redirections (Action.fail .error) (runList recurse body))
      checkStatus
  | .group body => runList recurse body
  | .branch condition body otherwise => do
      withTested true (runList recurse condition)
      if (← Action.get).status = 0 then runList recurse body
      else if otherwise.isEmpty then finish 0
      else runList recurse otherwise
  | .loop outcome condition body => runLoop recurse outcome condition body maxRounds 0
  | .each line name words? body => do
      atLine line
      let values ← match words? with
        | some words => wordsTexts (substitute recurse) words
        | none => Action.gets Machine.arguments
      if values.isEmpty then finish 0 else runEach recurse name body values
  | .choose line word clauses => do
      atLine line
      let text ← wordText (substitute recurse) word
      runClauses recurse text.toList clauses
  | .define name body => do
      Action.modify fun machine =>
        { machine with
          functions := (name, body) :: machine.functions.filter fun entry => entry.1 != name }
      finish 0

end Running

/-- Runs a command in which commands and functions are at most `bound` deep. -/
def run : (bound : Nat) → Command → Step Unit
  | 0, _ => Action.fail .error
  | bound + 1, command => perform (run bound) command

/-- How deep commands can be. -/
def maxDepth : Nat :=
  100000

end Step

/-! Starting programs from outside of a script. -/

/-- The path of a program that is looked for by its name. A directory of that
name counts as a program that must not be run. -/
def programPath (name : String) : Except OsError String :=
  if name.isEmpty then .error .notFound
  else if name = "." ∨ name = ".." then .error .permissionDenied
  else if FileTree.maxNameBytes < name.utf8ByteSize then .error .nameTooLong
  else if Tool.isProgram name then .ok ("/usr/bin/" ++ name)
  else .error .notFound

/-- Starts a program by its path, or by its name if that has no slash. The result
is what it writes as messages. -/
def launch (program : String) (arguments : List String) :
    Action OsError FileTree (List UInt8) :=
  fun tree =>
    let path := if program.toList.contains '/' then .ok program else programPath program
    if (program :: arguments).any fun text => text.toList.contains '\x00' then
      (.error .nulInArgument, tree)
    else
      match path with
      | .error error => (.error error, tree)
      | .ok path =>
          let step := Step.program (Step.run Step.maxDepth) Step.maxScripts (ofText path)
            (ofText program) (arguments.map ofText)
          let ended : Except Interrupt (Option OsError) × Machine :=
            step (Machine.start tree (ofText program) [])
          match ended with
          | (.ok (some error), _) => (.error error, tree)
          | (_, after) =>
              (.ok (toBytes (after.kept 2)), { after.tree with working := tree.working })

end Coroscript.Shell
