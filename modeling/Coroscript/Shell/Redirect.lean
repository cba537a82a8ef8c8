import Coroscript.Shell.Expansion

namespace Coroscript.Shell

/-! Redirections. -/

/-- The reason that a program gives for an error. -/
def reason : OsError → String
  | .notFound => "No such file or directory"
  | .execFormat => "Exec format error"
  | .permissionDenied => "Permission denied"
  | .alreadyExists => "File exists"
  | .notDirectory => "Not a directory"
  | .isDirectory => "Is a directory"
  | .nameTooLong => "File name too long"
  | error => error.message

/-- The reason that the shell gives; `missing` is its word for a path that leads
nowhere. -/
def shellReason (missing : String) : OsError → String
  | .notFound | .notDirectory => missing
  | error => reason error

/-- The descriptor that a path means. -/
def pathDescriptor? (path : String) : Option Nat :=
  match path with
  | "/dev/stdin" => some 0
  | "/dev/stdout" => some 1
  | "/dev/stderr" => some 2
  | _ =>
      let start := "/dev/fd/".toList
      if start.isPrefixOf path.toList then
        (String.ofList (path.toList.drop start.length)).toNat?
      else none

def Redirection.descriptor : Redirection → Nat
  | .file descriptor _ _ | .document descriptor _ => descriptor

namespace Machine

/-- Opens a file for writing. `keep` leaves what is in it. -/
def create (machine : Machine) (descriptor : Nat) (path : String) (keep appending : Bool) :
    Except OsError Machine := do
  let contents := if keep then (machine.tree.read path).toOption.getD [] else []
  match FileTree.write path contents machine.tree with
  | (.error error, _) => throw error
  | (.ok _, tree) =>
      match ← tree.stat path with
      | (address, .file _ _) =>
          return { machine with tree }.openStream descriptor (.file address 0 appending)
      | _ => return { machine with tree }.openStream descriptor .nowhere

/-- Opens a file for reading. -/
def openInput (machine : Machine) (descriptor : Nat) (path : String) :
    Except OsError Machine := do
  match ← machine.tree.stat path with
  | (_, .sink) => return machine.openStream descriptor .nowhere
  | (address, _) => return machine.openStream descriptor (.file address 0 false)

end Machine

namespace Step

/-- Leads one descriptor to where another leads. -/
def duplicate (descriptor source : Nat) : Step Bool := do
  match (← Action.get).descriptors.lookup source with
  | some index =>
      Action.modify (Machine.setDescriptor · descriptor (some index))
      return true
  | none =>
      refuse (toString source ++ ": Bad file descriptor") 2
      return false

/-- Opens the file of a redirection, and tells whether it could. -/
def openFile (descriptor : Nat) (operator path : String) : Step Bool := do
  let machine ← Action.get
  let (result, failure, missing) := match operator with
    | "<" => (machine.openInput descriptor (toText path), "cannot open ", "No such file")
    | "<>" =>
        (machine.create descriptor (toText path) true false, "cannot create ",
          "Directory nonexistent")
    | _ =>
        (machine.create descriptor (toText path) (operator = ">>") (operator = ">>"),
          "cannot create ", "Directory nonexistent")
  match result with
  | .ok opened =>
      Action.modify fun _ => opened
      return true
  | .error error =>
      refuse (failure ++ path ++ ": " ++ shellReason missing error) 2
      return false

/-- The text of a document; none if it has no value, which is an error of the
redirection only. -/
def documentText (substitute : List Command → Step String) (text : Word) : Step (Option String) :=
  fun machine =>
    match wordText substitute text machine with
    | (.ok found, after) => (.ok (some found), after)
    | (.error .error, after) => (.ok none, after)
    | (.error interrupt, after) => (.error interrupt, after)

/-- Does one redirection, and tells whether it could. -/
def redirect (substitute : List Command → Step String) (redirection : Redirection) :
    Step Bool := do
  match redirection with
  | .document descriptor text =>
      match ← documentText substitute text with
      | some rest =>
          Action.modify (Machine.openStream · descriptor (.input rest))
          return true
      | none => return false
  | .file descriptor operator target =>
      let path ← wordText substitute target
      if operator = ">&" ∨ operator = "<&" then
        match path.toList with
        | ['-'] =>
            Action.modify (Machine.setDescriptor · descriptor none)
            return true
        | [digit] =>
            if digit.isDigit then duplicate descriptor (digit.toNat - '0'.toNat)
            else badDescriptor
        | _ => badDescriptor
      else
        match pathDescriptor? path with
        | some source => duplicate descriptor source
        | none => openFile descriptor operator path
where
  /-- The target of a copy is no descriptor. -/
  badDescriptor : Step Bool := do
    Action.modify fun machine => { machine with line := machine.line + 1 }
    fatal "Syntax error: Bad fd number"

/-- Does redirections in order, up to the first that fails. -/
def redirectAll (substitute : List Command → Step String) : List Redirection → Step Bool
  | [] => return true
  | first :: others => do
      if ← redirect substitute first then redirectAll substitute others else return false

/-- Leads the descriptors of redirections to where they led before. -/
def restore (redirections : List Redirection) (before : Machine) (machine : Machine) : Machine :=
  redirections.foldl (fun machine redirection =>
    let descriptor := redirection.descriptor
    machine.setDescriptor descriptor (before.descriptors.lookup descriptor)) machine

/-- Runs a step with redirections. If one of them fails, `otherwise` runs in its
place. -/
def redirected (substitute : List Command → Step String) (redirections : List Redirection)
    (otherwise step : Step Unit) : Step Unit :=
  fun before =>
    let whole : Step Unit := do
      if ← redirectAll substitute redirections then step else otherwise
    let (result, after) := whole before
    (result, restore redirections before after)

end Step

end Coroscript.Shell
