namespace Coroscript.Path

/-! Paths as texts. A slash divides names, and a slash at the start means the
root. -/

def isAbsolute (path : String) : Bool :=
  path.toList.head? = some '/'

/-- `right` as seen from `left`. An absolute path is the same from everywhere. -/
def join (left right : String) : String :=
  if isAbsolute right || left.isEmpty then right
  else if left.toList.getLast? = some '/' then left ++ right
  else left ++ "/" ++ right

/-- The texts between slashes, empty ones included. -/
def splitSlashes : List Char → List (List Char)
  | [] => [[]]
  | c :: rest =>
      if c = '/' then [] :: splitSlashes rest
      else
        match splitSlashes rest with
        | [] => [[c]]
        | name :: names => (c :: name) :: names

/-- The names between slashes, without the empty ones. -/
def names (path : String) : List String :=
  ((splitSlashes path.toList).filter fun name => !name.isEmpty).map String.ofList

/-- The parts that tell a path from another: the root, a dot at the start, and
the names except dots. -/
def components (path : String) : List String :=
  if isAbsolute path then "/" :: (names path).filter (· != ".")
  else
    match names path with
    | "." :: rest => "." :: rest.filter (· != ".")
    | all => all.filter (· != ".")

def ofComponents : List String → String
  | [] => ""
  | "/" :: rest => "/" ++ "/".intercalate rest
  | all => "/".intercalate all

/-- The last component, if it is a name. -/
def fileName? (path : String) : Option String :=
  match (components path).getLast? with
  | some name => if name = "/" ∨ name = "." ∨ name = ".." then none else some name
  | none => none

/-- The paths above the one with the given components, which are given from the
last one back. Nothing is above the root or the empty path. -/
def above : List String → List String
  | [] => []
  | ["/"] => []
  | _ :: rest => ofComponents rest.reverse :: above rest

/-- A path and the paths above it, the nearest first. -/
def ancestors (path : String) : List String :=
  path :: above (components path).reverse

end Coroscript.Path
