import Coroscript.Action
import Coroscript.Files.Path

namespace Coroscript

/-! A file system as a value: a finite map from addresses to files and
directories, and a working directory. -/

/-- Why the system refuses an operation on files. -/
inductive OsError where
  | notFound
  | execFormat
  | permissionDenied
  | alreadyExists
  | notDirectory
  | isDirectory
  | nameTooLong
  | nulInPath
  | nulInArgument
  | invalidText
  | other (text : String)
deriving DecidableEq, Repr

def OsError.message : OsError → String
  | notFound => "No such file or directory (os error 2)"
  | execFormat => "Exec format error (os error 8)"
  | permissionDenied => "Permission denied (os error 13)"
  | alreadyExists => "File exists (os error 17)"
  | notDirectory => "Not a directory (os error 20)"
  | isDirectory => "Is a directory (os error 21)"
  | nameTooLong => "File name too long (os error 36)"
  | nulInPath => "file name contained an unexpected NUL byte"
  | nulInArgument => "nul byte found in provided data"
  | invalidText => "stream did not contain valid UTF-8"
  | other text => text

/-- The names on the way from the root. -/
abbrev Address := List String

inductive Node where
  | file (contents : List UInt8) (executable : Bool)
  | directory
  /-- A file that is always empty. -/
  | sink
deriving DecidableEq, Repr

structure FileTree where
  entries : List (Address × Node)
  working : Address
deriving DecidableEq, Repr

namespace FileTree

/-- What stands at an address. The root is always a directory. -/
def get? (tree : FileTree) (address : Address) : Option Node :=
  if address = [] then some .directory else tree.entries.lookup address

def erase (tree : FileTree) (address : Address) : FileTree :=
  { tree with entries := tree.entries.filter fun entry => entry.1 != address }

def set (tree : FileTree) (address : Address) (node : Node) : FileTree :=
  let others := tree.erase address
  { others with entries := others.entries ++ [(address, node)] }

/-- Whether `address` is strictly inside `directory`. -/
def isInside (directory address : Address) : Bool :=
  directory.isPrefixOf address && directory != address

/-- Removes all that is inside an address. -/
def emptyAt (tree : FileTree) (directory : Address) : FileTree :=
  { tree with entries := tree.entries.filter fun entry => !isInside directory entry.1 }

/-- What is inside the working directory: the paths from there, in order, and
the nodes. -/
def listing (tree : FileTree) : List (String × Node) :=
  let inside := (tree.entries.filter fun entry => isInside tree.working entry.1).map
    fun entry => ("/".intercalate (entry.1.drop tree.working.length), entry.2)
  inside.mergeSort fun left right => left.1 ≤ right.1

/-- A tree with an empty working directory. -/
def scratch : FileTree where
  entries :=
    [(["bin"], .directory), (["dev"], .directory), (["dev", "null"], .sink), (["tmp"], .directory),
      (["tmp", "work"], .directory), (["usr"], .directory), (["usr", "bin"], .directory)]
  working := ["tmp", "work"]

/-- The longest name that a file can have, in bytes. -/
def maxNameBytes : Nat :=
  255

/-- Goes down by names from an address, through directories that exist. The
last name need not exist. -/
def walk (tree : FileTree) : Address → List String → Except OsError Address
  | address, [] => .ok address
  | address, name :: names =>
      match tree.get? address with
      | none => .error .notFound
      | some .directory =>
          if name = "." then walk tree address names
          else if name = ".." then walk tree address.dropLast names
          else if maxNameBytes < name.utf8ByteSize then .error .nameTooLong
          else walk tree (address ++ [name]) names
      | some _ => .error .notDirectory

/-- The address a path means, where all but its last name must exist. A slash
at the end asks for a directory. -/
def locate (tree : FileTree) (path : String) : Except OsError Address :=
  if path.toList.contains '\x00' then .error .nulInPath
  else if path.isEmpty then .error .notFound
  else
    let start := if Path.isAbsolute path then [] else tree.working
    let slash := if path.toList.getLast? = some '/' then ["."] else []
    tree.walk start (Path.names path ++ slash)

/-- What a path means. -/
def stat (tree : FileTree) (path : String) : Except OsError (Address × Node) := do
  let address ← tree.locate path
  match tree.get? address with
  | some node => return (address, node)
  | none => throw .notFound

def has (tree : FileTree) (path : String) : Bool :=
  match tree.stat path with
  | .ok _ => true
  | .error _ => false

def isDirectory (tree : FileTree) (path : String) : Bool :=
  match tree.stat path with
  | .ok (_, .directory) => true
  | _ => false

/-- The contents of a file. -/
def read (tree : FileTree) (path : String) : Except OsError (List UInt8) := do
  match ← tree.stat path with
  | (_, .file contents _) => return contents
  | (_, .sink) => return []
  | (_, .directory) => throw .isDirectory

/-- A path without the slashes at its end. -/
def trimSlashes (path : String) : String :=
  match path.toList.reverse.dropWhile (· == '/') with
  | [] => path
  | rest => .ofList rest.reverse

/-- Makes one directory. -/
def makeDirectory (path : String) : Action OsError FileTree Unit :=
  fun tree =>
    match tree.locate (trimSlashes path) with
    | .error error => (.error error, tree)
    | .ok address =>
        match tree.get? address with
        | some _ => (.error .alreadyExists, tree)
        | none => (.ok (), tree.set address .directory)

/-- Makes the first of `paths`, each of which is above the one before it, and
those that are missing above it. Nothing is above the empty path. -/
def makeFirst : List String → Action OsError FileTree Unit
  | [] => Action.fail (.other "failed to create whole tree")
  | path :: above => fun tree =>
      if path.isEmpty then (.ok (), tree)
      else
        match makeDirectory path tree with
        | (.ok _, after) => (.ok (), after)
        | (.error .notFound, _) =>
            match makeFirst above tree with
            | (.error error, after) => (.error error, after)
            | (.ok _, after) => keepDirectory path (makeDirectory path after)
        | result => keepDirectory path result
where
  /-- A directory that could not be made because it is there is as good. -/
  keepDirectory (path : String) (result : Except OsError Unit × FileTree) :
      Except OsError Unit × FileTree :=
    match result with
    | (.error error, tree) =>
        if tree.isDirectory path then (.ok (), tree) else (.error error, tree)
    | done => done

/-- Makes a directory and those above it, as far as they are missing. -/
def makeDirectories (path : String) : Action OsError FileTree Unit :=
  makeFirst (Path.ancestors path)

/-- Removes all that is inside a directory. -/
def emptyDirectory (path : String) : Action OsError FileTree Unit :=
  fun tree =>
    match tree.stat path with
    | .error error => (.error error, tree)
    | .ok (address, .directory) => (.ok (), tree.emptyAt address)
    | .ok _ => (.error .notDirectory, tree)

/-- Makes `contents` the contents of a file, which is made if it is missing. -/
def write (path : String) (contents : List UInt8) : Action OsError FileTree Unit :=
  fun tree =>
    match tree.locate (trimSlashes path) with
    | .error error => (.error error, tree)
    | .ok address =>
        if path != trimSlashes path then (.error .isDirectory, tree)
        else
          match tree.get? address with
          | none => (.ok (), tree.set address (.file contents false))
          | some (.file _ executable) => (.ok (), tree.set address (.file contents executable))
          | some .sink => (.ok (), tree)
          | some .directory => (.error .isDirectory, tree)

/-- Puts a node at a path, under directories that are made if they are missing.
Nothing changes if there is no such place. -/
def install (tree : FileTree) (path : String) (node : Node) : FileTree :=
  let (_, ready) := match Path.ancestors path with
    | _ :: above => makeFirst above tree
    | [] => (.ok (), tree)
  match node with
  | .directory => (makeDirectories path ready).2
  | _ =>
      match ready.locate path with
      | .ok address => ready.set address node
      | .error _ => ready

end FileTree

end Coroscript
