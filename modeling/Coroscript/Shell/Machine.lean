import Coroscript.Files.Tree
import Coroscript.Shell.Reader
import Coroscript.Shell.Text

namespace Coroscript.Shell

/-! The state of a running script. -/

/-- A variable. It can be known without having a value. -/
structure Binding where
  name : String
  value? : Option String
  exported : Bool
  readonly : Bool
deriving DecidableEq, Repr

/-- What a descriptor leads to. -/
inductive Stream where
  /-- Keeps what is written. -/
  | kept (text : String)
  /-- Holds what is still to be read. -/
  | input (rest : String)
  | file (address : Address) (position : Nat) (appending : Bool)
  | nowhere
deriving DecidableEq, Repr

structure Machine where
  tree : FileTree
  name : String
  arguments : List String
  bindings : List Binding
  functions : List (String × Command)
  /-- The exit status of the last command. -/
  status : Nat
  /-- The exit status of the last substitution. -/
  substituted : Nat
  /-- The letters of the options that are on. -/
  options : List Char
  /-- The line that messages name. -/
  line : Nat
  /-- The built-in command that messages name. -/
  speaker? : Option String
  /-- The streams of the open descriptors, by their index. -/
  descriptors : List (Nat × Nat)
  streams : List Stream
  /-- The number of loops around the current command. -/
  loops : Nat
  /-- What the variables of the running functions were before. -/
  frames : List (List (String × Option Binding))
  /-- Whether the outcome of the current command is looked at. -/
  tested : Bool
  /-- What is run when the script ends. -/
  farewell? : Option String

/-- Why a command does not go on with the next one. -/
inductive Interrupt where
  | exit
  /-- An error that a built-in command may keep to itself. -/
  | error
  | leave
  | stop (loops : Nat)
  | again (loops : Nat)
deriving DecidableEq, Repr

abbrev Step := Action Interrupt Machine

namespace Machine

/-- The variables that every script starts with. -/
def startBindings (working : Address) : List Binding :=
  let bound (name value : String) (exported : Bool) : Binding := ⟨name, some value, exported, false⟩
  [bound "PATH" "/usr/local/sbin:/usr/local/bin:/usr/sbin:/usr/bin:/sbin:/bin" true,
    bound "PWD" (ofText ("/" ++ "/".intercalate working)) true,
    bound "HOME" "/root" true,
    bound "IFS" " \t\n" false,
    bound "OPTIND" "1" false,
    bound "PS1" "# " false,
    bound "PS2" "> " false,
    bound "PS4" "+ " false,
    bound "PPID" "1" false]

def start (tree : FileTree) (name : String) (arguments : List String) : Machine :=
  { tree, name, arguments
    bindings := startBindings tree.working
    functions := []
    status := 0
    substituted := 0
    options := []
    line := 0
    speaker? := none
    descriptors := [(0, 0), (1, 1), (2, 2)]
    streams := [.input "", .kept "", .kept ""]
    loops := 0
    frames := []
    tested := false
    farewell? := none }

def has (machine : Machine) (option : Char) : Bool :=
  machine.options.contains option

def binding? (machine : Machine) (name : String) : Option Binding :=
  machine.bindings.find? fun binding => binding.name == name

def assigned? (machine : Machine) (name : String) : Option String :=
  (machine.binding? name).bind Binding.value?

/-- The value of a variable that is missing counts as empty. -/
def value (machine : Machine) (name : String) : String :=
  (machine.assigned? name).getD ""

/-- Puts a binding in the place of the one of its name. -/
def bind (machine : Machine) (binding : Binding) : Machine :=
  if machine.bindings.any fun other => other.name == binding.name then
    { machine with
      bindings := machine.bindings.map fun other =>
        if other.name = binding.name then binding else other }
  else { machine with bindings := machine.bindings ++ [binding] }

def unbind (machine : Machine) (name : String) : Machine :=
  { machine with bindings := machine.bindings.filter fun binding => binding.name != name }

def finish (machine : Machine) (status : Nat) : Machine :=
  { machine with status }

/-- The stream of a descriptor, with its index. -/
def stream? (machine : Machine) (descriptor : Nat) : Option (Nat × Stream) := do
  let index ← machine.descriptors.lookup descriptor
  return (index, ← machine.streams[index]?)

def setStream (machine : Machine) (index : Nat) (stream : Stream) : Machine :=
  { machine with streams := machine.streams.set index stream }

/-- What a stream has kept. -/
def kept (machine : Machine) (index : Nat) : String :=
  match machine.streams[index]? with
  | some (.kept text) => text
  | _ => ""

/-- Leads a descriptor to a stream, or closes it. -/
def setDescriptor (machine : Machine) (descriptor : Nat) (index? : Option Nat) : Machine :=
  let others := machine.descriptors.filter fun entry => entry.1 != descriptor
  { machine with
    descriptors := match index? with
      | some index => (descriptor, index) :: others
      | none => others }

/-- Leads a descriptor to a new stream. -/
def openStream (machine : Machine) (descriptor : Nat) (stream : Stream) : Machine :=
  let index := machine.streams.length
  { machine with streams := machine.streams ++ [stream] }.setDescriptor descriptor (some index)

/-- The contents of a file after a text is written at a position. -/
def overwrite (contents : List UInt8) (position : Nat) (bytes : List UInt8) : List UInt8 :=
  let before := contents.take position
  before ++ List.replicate (position - before.length) 0 ++ bytes ++
    contents.drop (position + bytes.length)

/-- Writes to the stream of an index; none if that is not possible. -/
def writeStream? (machine : Machine) (index : Nat) (text : String) : Option Machine :=
  match machine.streams[index]? with
  | some (.kept before) => some (machine.setStream index (.kept (before ++ text)))
  | some .nowhere => some machine
  | some (.file address position appending) =>
      match machine.tree.get? address with
      | some (.file contents executable) =>
          let bytes := toBytes text
          let start := if appending then contents.length else position
          let written := overwrite contents start bytes
          some ({ machine with tree := machine.tree.set address (.file written executable) }.setStream
            index (.file address (start + bytes.length) appending))
      | _ => some machine
  | some (.input _) | none => none

/-- Writes to a descriptor; none if that is not possible. -/
def write? (machine : Machine) (descriptor : Nat) (text : String) : Option Machine := do
  machine.writeStream? (← machine.descriptors.lookup descriptor) text

/-- What can still be read from a descriptor; none if it is closed. -/
def readable? (machine : Machine) (descriptor : Nat) : Option String :=
  match machine.stream? descriptor with
  | some (_, .input rest) => some rest
  | some (_, .nowhere) => some ""
  | some (_, .file address position _) =>
      match machine.tree.get? address with
      | some (.file contents _) => some (ofBytes (contents.drop position))
      | _ => some ""
  | some (_, .kept _) => some ""
  | none => none

/-- Goes on by a count of characters in what is read from a descriptor. -/
def skip (machine : Machine) (descriptor count : Nat) : Machine :=
  match machine.stream? descriptor with
  | some (index, .input rest) => machine.setStream index (.input (.ofList (rest.toList.drop count)))
  | some (index, .file address position appending) =>
      machine.setStream index (.file address (position + count) appending)
  | _ => machine

/-- All that can still be read from a descriptor. -/
def readAll (machine : Machine) (descriptor : Nat) : String × Machine :=
  let text := (machine.readable? descriptor).getD ""
  (text, machine.skip descriptor text.length)

/-- Writes a line of messages. -/
def complain (machine : Machine) (text : String) : Machine :=
  (machine.write? 2 (text ++ "\n")).getD machine

/-- A message of the shell itself. -/
def warn (machine : Machine) (text : String) : Machine :=
  let speaker := match machine.speaker? with
    | some name => name ++ ": "
    | none => ""
  machine.complain (machine.name ++ ": " ++ toString machine.line ++ ": " ++ speaker ++ text)

end Machine

namespace Step

/-- Goes to a line of the script. -/
def atLine (line : Nat) : Step Unit :=
  Action.modify fun machine => { machine with line }

def finish (status : Nat) : Step Unit :=
  Action.modify (Machine.finish · status)

def ofBool (truth : Bool) : Step Unit :=
  finish (if truth then 0 else 1)

/-- A message, after which the script ends, unless a built-in command fails
instead. -/
def fatal {α : Type} (text : String) : Step α := do
  Action.modify fun machine => (machine.warn text).finish 2
  Action.fail .error

/-- A message, after which the command has failed. -/
def refuse (text : String) (status : Nat) : Step Unit :=
  Action.modify fun machine => (machine.warn text).finish status

/-- A message of a program. -/
def complain (text : String) : Step Unit :=
  Action.modify (Machine.complain · text)

/-- Gives a variable a value, unless it must keep its own. -/
def assign (name value : String) : Step Unit := do
  let machine ← Action.get
  match machine.binding? name with
  | some binding =>
      if binding.readonly then fatal (name ++ ": is read only")
      else Action.modify (Machine.bind · { binding with value? := some value })
  | none => Action.modify (Machine.bind · ⟨name, some value, machine.has 'a', false⟩)

/-- Runs a step on a copy of the state, of which only the files and the streams
stay. The step can end early. -/
def isolated (step : Step Unit) : Step Unit :=
  fun machine =>
    let (_, after) := step machine
    let tree := { after.tree with working := machine.tree.working }
    (.ok (), { machine with tree, streams := after.streams, status := after.status })

end Step

end Coroscript.Shell
