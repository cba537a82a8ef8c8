import Coroscript.CommandLine

namespace Coroscript.Main

/-! The program: the command line on the files of the machine it runs on. -/

def osError : IO.Error → OsError
  | .noFileOrDirectory _ _ _ | .noSuchThing _ _ _ => .notFound
  | .permissionDenied _ _ _ => .permissionDenied
  | .alreadyExists _ _ _ => .alreadyExists
  | .inappropriateType _ code _ => if code = 21 then .isDirectory else .notDirectory
  | error => .other (toString error)

def attempt {α : Type} (action : IO α) : IO (Except OsError α) := do
  match ← action.toBaseIO with
  | .ok value => return .ok value
  | .error error => return .error (osError error)

def emptyDirectory (directory : String) : IO Unit := do
  for entry in ← (← IO.FS.realPath directory).readDir do
    if ← entry.path.isDir then IO.FS.removeDirAll entry.path
    else IO.FS.removeFile entry.path

/-- The machine. No program can be started on it, so that a native build fails
unless its binary is there. -/
def host : Host IO where
  read path := attempt do return (← IO.FS.readBinFile path).toList
  makeDirectories path := attempt do
    if !path.isEmpty then IO.FS.createDirAll path
  emptyDirectory path := attempt (emptyDirectory path)
  write path contents := attempt (IO.FS.writeBinFile path ⟨contents.toArray⟩)
  has path := do
    match ← (IO.FS.Handle.mk path .read).toBaseIO with
    | .ok _ => return true
    | .error _ => return false
  run _ _ := return .error (.other "programs cannot be started")

end Coroscript.Main

def main (arguments : List String) : IO UInt32 := do
  let compiler? ← IO.getEnv "DTL_CXX"
  match Coroscript.CommandLine.Request.ofArguments arguments compiler? with
  | .version => IO.print Coroscript.CommandLine.versionText; return 0
  | .help => IO.print Coroscript.CommandLine.usageText; return 0
  | .misuse => IO.eprint Coroscript.CommandLine.usageText; return 2
  | .run options =>
      let ending ← Coroscript.CommandLine.run Coroscript.Main.host options
      IO.eprint ending.messages
      return ending.exitCode
