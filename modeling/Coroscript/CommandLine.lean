import Coroscript.Build.Output
import Coroscript.Compile
import Coroscript.Diagnostic

namespace Coroscript.CommandLine

/-! The command line: which arguments mean what, and what a run does. -/

structure Options where
  input : String
  outDir : String
  compiler : String
  flags : List String
  binaryName : String
  emitOnly : Bool
  verbose : Bool
deriving DecidableEq, Repr

/-- What the arguments ask for. -/
inductive Request where
  | run (options : Options)
  | version
  | help
  | misuse
deriving DecidableEq, Repr

/-- The options that take a value. -/
inductive ValueOption where
  | outDir
  | compiler
  | flag
  | binaryName
deriving DecidableEq, Repr

inductive Switch where
  | emitOnly
  | verbose
  | version
  | help
deriving DecidableEq, Repr

/-- What the arguments read so far have set. -/
structure Given where
  input? : Option String := none
  outDir? : Option String := none
  compiler? : Option String := none
  flags : List String := []
  binaryName? : Option String := none
  emitOnly : Bool := false
  verbose : Bool := false

def valueOption? : String → Option ValueOption
  | "out-dir" | "o" => some .outDir
  | "cxx" => some .compiler
  | "flag" => some .flag
  | "binary-name" | "b" => some .binaryName
  | _ => none

def switch? : String → Option Switch
  | "emit-only" => some .emitOnly
  | "verbose" | "v" => some .verbose
  | "version" | "V" => some .version
  | "help" | "h" => some .help
  | _ => none

/-- Sets a value that may be given once. -/
def once {α : Type} (current? : Option α) (value : α) : Except Request (Option α) :=
  match current? with
  | none => .ok (some value)
  | some _ => .error .misuse

def nonempty (value : String) : Except Request String :=
  if value.isEmpty then .error .misuse else .ok value

def Given.setValue (given : Given) (option : ValueOption) (value : String) :
    Except Request Given :=
  match option with
  | .outDir => do return { given with outDir? := ← once given.outDir? (← nonempty value) }
  | .compiler => do return { given with compiler? := ← once given.compiler? value }
  | .flag => return { given with flags := given.flags ++ [value] }
  | .binaryName => do return { given with binaryName? := ← once given.binaryName? value }

/-- The version and the help end the reading of arguments. -/
def Given.setSwitch (given : Given) (switch : Switch) : Except Request Given :=
  match switch with
  | .emitOnly => if given.emitOnly then .error .misuse else .ok { given with emitOnly := true }
  | .verbose => if given.verbose then .error .misuse else .ok { given with verbose := true }
  | .version => .error .version
  | .help => .error .help

def Given.setInput (given : Given) (value : String) : Except Request Given := do
  return { given with input? := ← once given.input? (← nonempty value) }

/-- Reads one-letter options written together. The letter of an option that
takes a value is followed by the value, or by nothing if that is the next
argument. -/
def letters (given : Given) : List Char → Except Request (Given × Option ValueOption)
  | [] => return (given, none)
  | letter :: rest =>
      match valueOption? (.singleton letter), switch? (.singleton letter) with
      | some option, _ =>
          match rest with
          | [] => return (given, some option)
          | '=' :: value => do return (← given.setValue option (.ofList value), none)
          | value => do return (← given.setValue option (.ofList value), none)
      | none, some switch => do letters (← given.setSwitch switch) rest
      | none, none => .error .misuse

/-- Reads an option with a long name, and the value after an equals sign. -/
def long (given : Given) (text : List Char) : Except Request (Given × Option ValueOption) :=
  let name := String.ofList (text.takeWhile (· != '='))
  let value? := match text.dropWhile (· != '=') with
    | [] => none
    | _ :: value => some (String.ofList value)
  if name.length ≤ 1 then .error .misuse
  else
    match valueOption? name, switch? name, value? with
    | some option, _, some value => do return (← given.setValue option value, none)
    | some option, _, none => return (given, some option)
    | none, some switch, none => do return (← given.setSwitch switch, none)
    | none, _, _ => .error .misuse

def isDashed (argument : String) : Bool :=
  match argument.toList with
  | '-' :: _ :: _ => true
  | _ => false

/-- Reads the arguments from left to right. `pending` is an option that waits
for its value; only a compiler flag may begin with a dash. -/
def readArguments (given : Given) (pending : Option ValueOption) :
    List String → Except Request Given
  | [] => if pending.isSome then .error .misuse else .ok given
  | argument :: rest =>
      match pending with
      | some option =>
          if option != .flag && isDashed argument then .error .misuse
          else do readArguments (← given.setValue option argument) none rest
      | none =>
          match argument.toList with
          | ['-', '-'] => rest.foldlM Given.setInput given
          | '-' :: '-' :: text => do
              let (given, pending) ← long given text
              readArguments given pending rest
          | '-' :: letter :: text => do
              let (given, pending) ← letters given (letter :: text)
              readArguments given pending rest
          | _ => do readArguments (← given.setInput argument) none rest

/-- What `arguments` ask for, where `compiler?` is the compiler that the
environment names. -/
def Request.ofArguments (arguments : List String) (compiler? : Option String) : Request :=
  match readArguments {} none arguments with
  | .error request => request
  | .ok given =>
      match given.input? with
      | none => .misuse
      | some input =>
          let standard := BuildConfig.standard
          .run
            { input
              outDir := given.outDir?.getD standard.outDir
              compiler := (given.compiler?.orElse fun _ => compiler?).getD standard.compiler
              flags := given.flags
              binaryName := given.binaryName?.getD standard.binaryName
              emitOnly := given.emitOnly
              verbose := given.verbose }

def Options.config (options : Options) : BuildConfig :=
  { BuildConfig.standard with
    outDir := options.outDir
    binaryName := options.binaryName
    compiler := options.compiler
    flags := BuildConfig.standard.flags ++ options.flags }

def versionText : String :=
  "dtlc 0.1.0\n"

def usageText : String :=
  "Usage: dtlc [OPTIONS] <INPUT>\n\n" ++
  "  -o, --out-dir DIR       where the generated C++ goes\n" ++
  "      --cxx NAME          the native compiler\n" ++
  "      --flag FLAG         a flag for the native compiler\n" ++
  "  -b, --binary-name NAME  the name of the binary\n" ++
  "      --emit-only         do not run the native compiler\n" ++
  "  -v, --verbose           tell what is done\n" ++
  "  -V, --version           print the version\n" ++
  "  -h, --help              print this text\n"

/-- How a run ends: the exit code, and the messages it writes. -/
structure Ending where
  exitCode : UInt32
  messages : String
deriving DecidableEq, Repr

variable {m : Type → Type} [Monad m]

/-- The text of a file that has to be read as text. -/
def readText (host : Host m) (path : String) : m (Except OsError String) := do
  match ← host.read path with
  | .error error => return .error error
  | .ok bytes =>
      match decodeUtf8? bytes with
      | some text => return .ok text
      | none => return .error .invalidText

/-- The messages of a native build that failed: what the compiler said, unless
that is blank, and which compiler it was. -/
def failedBuild (compiler output : String) : Ending :=
  let said := String.ofList (trimEnd output.toList)
  let output := if said.isEmpty then "" else said ++ "\n"
  ⟨2, output ++ "Compilation failed [" ++ compiler ++ "]\n"⟩

/-- Compiles a source file, writes the result and builds it. -/
def run (host : Host m) (options : Options) : m Ending := do
  match ← readText host options.input with
  | .error error =>
      return ⟨1, "Error: failed to read '" ++ options.input ++ "': " ++ error.message ++ "\n"⟩
  | .ok source =>
      let file := (Path.fileName? options.input).getD options.input
      match compileSource source file with
      | .error error => return ⟨1, error.report source file ++ "\n"⟩
      | .ok code =>
          match ← writeOutput host options.config code with
          | .error error =>
              return ⟨1, "Error: failed to write the generated C++: " ++ error.message ++ ": " ++
                error.cause.message ++ "\n"⟩
          | .ok _ =>
              if options.emitOnly then return ⟨0, ""⟩
              else
                match ← build host options.config with
                | .built _ => return ⟨0, ""⟩
                | .failed compiler output => return failedBuild compiler output

end Coroscript.CommandLine
