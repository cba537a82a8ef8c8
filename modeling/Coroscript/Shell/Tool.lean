import Coroscript.Shell.Builtin
import Coroscript.Shell.Tool.Edit
import Coroscript.Shell.Tool.Evaluate

namespace Coroscript.Shell

/-! The programs that every machine has. -/

namespace Tool

def echo (arguments : List String) : Step Unit := do
  Step.finish 0
  match arguments with
  | "-n" :: words => Step.print (" ".intercalate words)
  | words => Step.print (" ".intercalate words ++ "\n")

def sleep (arguments : List String) : Step Unit :=
  Step.withOptions 1 ⟨[], [], []⟩ arguments fun options => do
    if options.operands.isEmpty then Step.usage 1 "missing operand"
    else
      for operand in options.operands do
        if !(operand.toList.head?.map fun c => c.isDigit || c == '.').getD false then
          Step.usage 1 ("invalid time interval " ++ quoted operand)

def pwd (arguments : List String) : Step Unit :=
  Step.withOptions 1 ⟨['L', 'P'], [], []⟩ arguments fun _ => do
    Step.print (Builtin.pathOf (← Action.get).tree.working ++ "\n")

/-- The variables that programs see. -/
def printenv (arguments : List String) : Step Unit := do
  let machine ← Action.get
  let exported := machine.bindings.filter Binding.exported
  match arguments with
  | [] =>
      Step.finish 0
      Step.print (String.join (exported.map fun binding =>
        binding.name ++ "=" ++ binding.value?.getD "" ++ "\n"))
  | names =>
      Step.ofBool (names.all fun name => exported.any fun binding => binding.name == name)
      for name in names do
        match exported.find? fun binding => binding.name == name with
        | some binding => Step.print (binding.value?.getD "" ++ "\n")
        | none => pure ()

/-- A program that does not run others. -/
def run? (name : String) : Option (List String → Step Unit) :=
  match name with
  | "true" => some fun _ => Step.finish 0
  | "false" => some fun _ => Step.finish 1
  | "echo" => some echo
  | "printf" => some Builtin.printf
  | "test" => some Builtin.test
  | "[" => some Builtin.bracket
  | "pwd" => some pwd
  | "sleep" => some sleep
  | "printenv" => some printenv
  | "cat" => some cat
  | "cp" => some cp
  | "mv" => some mv
  | "rm" => some rm
  | "rmdir" => some rmdir
  | "mkdir" => some mkdir
  | "touch" => some touch
  | "chmod" => some chmod
  | "ls" => some ls
  | "basename" => some basename
  | "dirname" => some dirname
  | "head" => some head
  | "tail" => some tail
  | "wc" => some wc
  | "sort" => some sort
  | "uniq" => some uniq
  | "cut" => some cut
  | "tr" => some tr
  | "tee" => some tee
  | "seq" => some seq
  | "tac" => some tac
  | "rev" => some rev
  | "cmp" => some cmp
  | "expr" => some expr
  | "grep" => some grep
  | "egrep" => some fun arguments => grep ("-E" :: arguments)
  | "fgrep" => some fun arguments => grep ("-F" :: arguments)
  | "sed" => some sed
  | _ => none

def shells : List String :=
  ["sh", "dash", "bash"]

/-- Whether there is a program of a name. -/
def isProgram (name : String) : Bool :=
  (run? name).isSome || shells.contains name || name == "env"

/-- The directories of these programs. -/
def directories : List String :=
  ["/bin", "/usr/bin"]

/-- The name of a program of these, by its path. -/
def named? (path : String) : Option String :=
  match Path.isAbsolute path, Path.names path with
  | true, ["bin", name] | true, ["usr", "bin", name] =>
      if isProgram name then some name else none
  | _, _ => none

end Tool

end Coroscript.Shell
