import Coroscript.Files.Host
import Coroscript.Source.Utf8

namespace Coroscript

/-! Writing an emitted program and handing it to a native compiler. The output
directory belongs to the build: what is in it is removed before every run. -/

/-- Where the emitted program goes, and how it is compiled. -/
structure BuildConfig where
  outDir : String
  sourceName : String
  binaryName : String
  compiler : String
  flags : List String
deriving DecidableEq, Repr

namespace BuildConfig

def standard : BuildConfig :=
  ⟨"out", "main.cpp", "main", "g++", ["-std=c++17"]⟩

def sourcePath (config : BuildConfig) : String :=
  Path.join config.outDir config.sourceName

def binaryPath (config : BuildConfig) : String :=
  Path.join config.outDir config.binaryName

/-- The arguments of the compiler. -/
def arguments (config : BuildConfig) : List String :=
  config.flags ++ [config.sourcePath, "-o", config.binaryPath]

/-- Whether two configurations mean the same. Two texts of one output directory
do. -/
def same (left right : BuildConfig) : Bool :=
  Path.components left.outDir = Path.components right.outDir &&
    { left with outDir := right.outDir } = right

end BuildConfig

/-- Why the emitted program could not be written. -/
inductive OutputError where
  | outputDir (path : String) (cause : OsError)
  | write (path : String) (cause : OsError)
deriving DecidableEq, Repr

namespace OutputError

def message : OutputError → String
  | outputDir path _ => "failed to prepare output directory '" ++ path ++ "'"
  | write path _ => "failed to write '" ++ path ++ "'"

def cause : OutputError → OsError
  | outputDir _ cause | write _ cause => cause

end OutputError

/-- What a native build came to. -/
inductive BuildOutcome where
  | built (binary : String)
  | failed (compiler output : String)
deriving DecidableEq, Repr

variable {m : Type → Type} [Monad m]

/-- Makes the output directory and removes all that is in it. -/
def clearOutput (host : Host m) (directory : String) : m (Except OutputError Unit) := do
  match ← host.makeDirectories directory with
  | .error error => return .error (.outputDir directory error)
  | .ok _ =>
      match ← host.emptyDirectory directory with
      | .error error => return .error (.outputDir directory error)
      | .ok _ => return .ok ()

/-- Writes an emitted program, alone in the output directory, and tells where. -/
def writeOutput (host : Host m) (config : BuildConfig) (code : String) :
    m (Except OutputError String) := do
  match ← clearOutput host config.outDir with
  | .error error => return .error error
  | .ok _ =>
      match ← host.write config.sourcePath (encodeUtf8 code) with
      | .error error => return .error (.write config.sourcePath error)
      | .ok _ => return .ok config.sourcePath

/-- Runs the native compiler. Whether the build succeeded is told only by
whether the binary is there afterwards. -/
def build (host : Host m) (config : BuildConfig) : m BuildOutcome := do
  let result ← host.run config.compiler config.arguments
  if ← host.has config.binaryPath then return .built config.binaryPath
  else
    match result with
    | .ok messages => return .failed config.compiler (decodeUtf8Lossy messages)
    | .error error => return .failed config.compiler error.message

end Coroscript
