import Coroscript.Shell.Tool.Options

namespace Coroscript.Shell

/-! Programs that change files. -/

namespace Tool

/-- What goes wrong with a path: a message that names it in quotes. -/
def about (what path : String) (error : OsError) : String :=
  what ++ " " ++ quoted path ++ ": " ++ reason error

/-- The last name of a path. -/
def lastName (path : String) : String :=
  match (Path.names path).getLast? with
  | some name => name
  | none => if Path.isAbsolute path then "/" else path

/-- A path of a name in a directory. -/
def within (directory name : String) : String :=
  if directory.toList.getLast? = some '/' then directory ++ name else directory ++ "/" ++ name

/-- Puts all that is at an address, and inside it, at another address too. -/
def copyTree (tree : FileTree) (source target : Address) : FileTree :=
  let moved := (tree.entries.filter fun entry =>
    entry.1 = source || FileTree.isInside source entry.1).map fun entry =>
      (target ++ entry.1.drop source.length, entry.2)
  moved.foldl (fun tree entry =>
    match entry.2, tree.get? entry.1 with
    | .directory, some .directory => tree
    | node, _ => tree.set entry.1 node) tree

/-- Where something is to be put: a target and, if that is a directory, the name
in it. -/
def destination (tree : FileTree) (source target : String) : String :=
  if tree.isDirectory (toText target) then within target (lastName source) else target

def setTree (tree : FileTree) : Step Unit :=
  Action.modify fun machine => { machine with tree }

/-! Copies and moves. -/

def copyFile (path : String) (contents : List UInt8) (executable : Bool) : Step Unit := do
  let tree := (← Action.get).tree
  let isNew := !tree.has (toText path)
  let slash := path.toList.getLast? = some '/'
  let result := if slash ∧ isNew then (.error .notDirectory, tree)
    else FileTree.write (toText path) contents tree
  match result with
  | (.error error, _) => Step.failWith 1 (about "cannot create regular file" path error)
  | (.ok _, after) =>
      match isNew && executable, after.stat (toText path) with
      | true, .ok (address, .file bytes _) => setTree (after.set address (.file bytes true))
      | _, _ => setTree after

/-- Copies one source. -/
def copyOne (recursive verbose : Bool) (source target : String) : Step Unit := do
  let tree := (← Action.get).tree
  let path := destination tree source target
  let said := if verbose then
    Step.print (quoted source ++ " -> " ++ quoted path ++ "\n") else return ()
  match tree.stat (toText source), tree.stat (toText path) with
  | .error error, _ => Step.failWith 1 (about "cannot stat" source error)
  | .ok (_, .directory), there =>
      if !recursive then
        Step.failWith 1 ("-r not specified; omitting directory " ++ quoted source)
      else copyDirectory tree path said there
  | .ok (_, _), .error .notDirectory =>
      Step.failWith 1 (about "cannot stat" path .notDirectory)
  | .ok (_, _), .ok (_, .directory) =>
      Step.failWith 1 ("cannot overwrite directory " ++ quoted path ++ " with non-directory")
  | .ok (origin, node), there =>
      if (there.map Prod.fst).toOption = some origin then
        Step.failWith 1 (quoted source ++ " and " ++ quoted path ++ " are the same file")
      else
        said
        match node with
        | .file contents executable => copyFile path contents executable
        | _ => copyFile path [] false
where
  copyDirectory (tree : FileTree) (path : String) (said : Step Unit)
      (there : Except OsError (Address × Node)) : Step Unit := do
    match tree.locate (toText source), tree.locate (FileTree.trimSlashes (toText path)), there with
    | .ok origin, .ok goal, _ =>
        match tree.get? goal with
        | some .directory | none =>
            if origin = goal || FileTree.isInside origin goal then
              Step.failWith 1 ("cannot copy a directory, " ++ quoted source ++
                ", into itself, " ++ quoted path)
            else
              said
              setTree (copyTree tree origin goal)
        | some _ =>
            Step.failWith 1 ("cannot overwrite non-directory " ++ quoted path ++
              " with directory " ++ quoted source)
    | _, .error error, _ => Step.failWith 1 (about "cannot create directory" path error)
    | .error error, _, _ => Step.failWith 1 (about "cannot stat" source error)

/-- Moves one source. -/
def moveOne (source target : String) : Step Unit := do
  let tree := (← Action.get).tree
  let path := destination tree source target
  let cannot (error : OsError) :=
    Step.failWith 1 ("cannot move " ++ quoted source ++ " to " ++ quoted path ++ ": " ++
      reason error)
  match tree.stat (toText source), tree.stat (toText path),
      tree.locate (FileTree.trimSlashes (toText path)) with
  | .error error, _, _ => Step.failWith 1 (about "cannot stat" source error)
  | .ok _, .error .notDirectory, _ =>
      if path.toList.getLast? = some '/' then cannot .notDirectory
      else Step.failWith 1 (about "cannot stat" path .notDirectory)
  | .ok (_, _), _, .error error => cannot error
  | .ok (origin, node), there, .ok goal =>
      let isDirectory : Bool := node = .directory
      if origin = goal then
        Step.failWith 1 (quoted source ++ " and " ++ quoted path ++ " are the same file")
      else if isDirectory && FileTree.isInside origin goal then
        Step.failWith 1 ("cannot move " ++ quoted source ++ " to a subdirectory of itself, " ++
          quoted path)
      else
        match isDirectory, there with
        | false, .ok (_, .directory) =>
            Step.failWith 1 ("cannot overwrite directory " ++ quoted path ++
              " with non-directory")
        | true, .ok (_, .directory) =>
            if tree.entries.any fun entry => FileTree.isInside goal entry.1 then
              cannot (.other "Directory not empty")
            else move tree origin goal
        | true, .ok _ =>
            Step.failWith 1 ("cannot overwrite non-directory " ++ quoted path ++
              " with directory " ++ quoted source)
        | false, .error _ =>
            if path.toList.getLast? = some '/' then cannot .notDirectory else move tree origin goal
        | _, _ => move tree origin goal
where
  move (tree : FileTree) (origin goal : Address) : Step Unit :=
    let copied := copyTree tree origin goal
    setTree ((copied.emptyAt origin).erase origin)

/-- Copies or moves to the last operand. -/
def transfer (one : String → String → Step Unit) (operands : List String) :
    Step Unit := do
  match operands.reverse with
  | [] => Step.usage 1 "missing file operand"
  | [source] => Step.usage 1 ("missing destination file operand after " ++ quoted source)
  | [target, source] => one source target
  | target :: sources =>
      match (← Action.get).tree.stat (toText target) with
      | .ok (_, .directory) =>
          for source in sources.reverse do
            one source target
      | .ok _ => Step.failWith 1 (about "target" target .notDirectory)
      | .error error => Step.failWith 1 (about "target" target error)

def cp (arguments : List String) : Step Unit :=
  Step.withOptions 1
    ⟨"abdfHilLnpPrRsTuvxZ".toList, ['S', 't'],
      [("recursive", 'r'), ("force", 'f'), ("verbose", 'v'), ("archive", 'a')]⟩ arguments
    fun options =>
      transfer
        (copyOne (options.has 'r' || options.has 'R' || options.has 'a') (options.has 'v'))
        options.operands

def mv (arguments : List String) : Step Unit :=
  Step.withOptions 1 ⟨"bfinTuvZ".toList, ['S', 't'], [("force", 'f')]⟩ arguments fun options =>
    transfer moveOne options.operands

/-! Removals. -/

def rm (arguments : List String) : Step Unit :=
  Step.withOptions 1
    ⟨"dfiIrRv".toList, [], [("recursive", 'r'), ("force", 'f'), ("verbose", 'v')]⟩ arguments
    fun options => do
      let recursive := options.has 'r' || options.has 'R'
      if options.operands.isEmpty ∧ !options.has 'f' then Step.usage 1 "missing operand"
      else
        for path in options.operands do
          let tree := (← Action.get).tree
          let said := if options.has 'v' then Step.print ("removed " ++ quoted path ++ "\n")
            else return ()
          match tree.stat (toText path) with
          | .error error =>
              if options.has 'f' && (error = .notFound || error = .notDirectory) then pure ()
              else Step.failWith 1 (about "cannot remove" path error)
          | .ok (address, .directory) =>
              if !recursive then
                Step.failWith 1 (about "cannot remove" path .isDirectory)
              else if ["", ".", ".."].contains (lastName path) then
                Step.failWith 1 ("refusing to remove '.' or '..' directory: skipping " ++
                  quoted path)
              else setTree ((tree.emptyAt address).erase address)
          | .ok (address, _) =>
              setTree (tree.erase address)
              said

def rmdir (arguments : List String) : Step Unit :=
  Step.withOptions 1 ⟨"pv".toList, [], []⟩ arguments fun options => do
    if options.operands.isEmpty then Step.usage 1 "missing operand"
    else
      for path in options.operands do
        let tree := (← Action.get).tree
        match tree.stat (toText path) with
        | .error error => Step.failWith 1 (about "failed to remove" path error)
        | .ok (address, .directory) =>
            if tree.entries.any fun entry => FileTree.isInside address entry.1 then
              Step.failWith 1
                (about "failed to remove" path (.other "Directory not empty"))
            else setTree (tree.erase address)
        | .ok _ => Step.failWith 1 (about "failed to remove" path .notDirectory)

/-! New files and directories. -/

/-- The paths on the way to a path. -/
def pathsTo (path : String) : List String :=
  (Path.ancestors (FileTree.trimSlashes path)).reverse.filter fun path => path != ""

/-- Makes the directories on the way to a path, up to one that cannot be made. -/
def makeAll : List String → Step Unit
  | [] => return ()
  | path :: paths => do
      let tree := (← Action.get).tree
      match tree.stat path with
      | .ok (_, .directory) => makeAll paths
      | .ok _ =>
          Step.failWith 1 (about "cannot create directory" (ofText path)
            (if paths.isEmpty then .alreadyExists else .notDirectory))
      | .error _ =>
          match ← Step.change (FileTree.makeDirectory path) with
          | none => makeAll paths
          | some error =>
              Step.failWith 1 (about "cannot create directory" (ofText path) error)

def mkdir (arguments : List String) : Step Unit :=
  Step.withOptions 1
    ⟨"pvZ".toList, ['m'], [("parents", 'p'), ("mode", 'm'), ("verbose", 'v')]⟩ arguments
    fun options => do
      if options.operands.isEmpty then Step.usage 1 "missing operand"
      else
        for path in options.operands do
          if options.has 'p' ∧ !path.isEmpty then makeAll (pathsTo (toText path))
          else
            match ← Step.change (FileTree.makeDirectory (toText path)) with
            | none =>
                if options.has 'v' then
                  Step.print ((← Action.get).name ++ ": created directory " ++ quoted path ++ "\n")
            | some error => Step.failWith 1 (about "cannot create directory" path error)

def touch (arguments : List String) : Step Unit :=
  Step.withOptions 1 ⟨"acfhm".toList, ['d', 'r', 't'], [("no-create", 'c')]⟩ arguments
    fun options => do
      if options.operands.isEmpty then Step.usage 1 "missing file operand"
      else
        for path in options.operands do
          let tree := (← Action.get).tree
          if tree.has (toText path) || options.has 'c' then pure ()
          else
            match ← Step.change (FileTree.write (toText path) []) with
            | none => pure ()
            | some .isDirectory =>
                Step.failWith 1 (about "setting times of" path .notFound)
            | some error => Step.failWith 1 (about "cannot touch" path error)

/-! Modes. -/

/-- What a clause of a mode does to the permission to run a file: none if it is
no clause. -/
def clause? (text : List Char) (executable : Bool) : Option Bool :=
  let who := text.takeWhile ("ugoa".toList.contains ·)
  match text.drop who.length with
  | operator :: permissions =>
      if !"+-=".toList.contains operator || !permissions.all ("rwxXst".toList.contains ·) then none
      else
        let runs := permissions.contains 'x'
        match operator with
        | '+' => some (executable || runs)
        | '-' => some (executable && !runs)
        | _ => some runs
  | [] => none

/-- Whether a file can be run after its mode is changed; none if there is no such
mode. -/
def mode? (mode : String) (executable : Bool) : Option Bool :=
  let digits := mode.toList
  if !digits.isEmpty && digits.all fun c => '0' ≤ c && c ≤ '7' then
    if 4 < digits.length then none
    else some ((digits.reverse.take 3).any fun c => c.toNat % 2 = 1)
  else
    (mode.splitOn ",").foldl (fun state? clause => state?.bind (clause? clause.toList ·))
      (some executable)

def chmodAll (mode : String) (paths : List String) : Step Unit := do
  for path in paths do
    let tree := (← Action.get).tree
    match tree.stat (toText path) with
    | .ok (address, .file contents executable) =>
        setTree (tree.set address (.file contents ((mode? mode executable).getD executable)))
    | .ok _ => pure ()
    | .error error => Step.failWith 1 (about "cannot access" path error)

def chmod (arguments : List String) : Step Unit := do
  Step.finish 0
  match arguments with
  | [] => Step.usage 1 "missing operand"
  | mode :: paths =>
      if (mode? mode false).isNone then
        Step.usage 1 ("invalid mode: " ++ quoted mode)
      else if paths.isEmpty then
        Step.usage 1 ("missing operand after " ++ quoted mode)
      else chmodAll mode paths

/-! Names. -/

def ls (arguments : List String) : Step Unit :=
  Step.withOptions 2 ⟨"aAbBcCdDfFgGhHiklLmnNopqQrRsStuUvxXZ1".toList, ['I', 'T', 'w'], [("all", 'a')]⟩ arguments fun options => do
    let tree := (← Action.get).tree
    let operands := (if options.operands.isEmpty then ["."] else options.operands).mergeSort
      fun left right => left ≤ right
    for path in operands do
      match tree.stat (toText path) with
      | .error error => Step.failWith 2 (about "cannot access" path error)
      | .ok _ => pure ()
    let isDirectory (path : String) := !options.has 'd' && tree.isDirectory (toText path)
    let files := operands.filter fun path => tree.has (toText path) && !isDirectory path
    let directories := operands.filter isDirectory
    for path in files do
      Step.print (path ++ "\n")
    let headed := 1 < operands.length
    for (path, index) in directories.zipIdx do
      if headed then
        Step.print ((if index = 0 ∧ files.isEmpty then "" else "\n") ++ path ++ ":\n")
      match tree.stat (toText path) with
      | .ok (address, _) =>
          let all := if options.has 'a' then [".", ".."] else []
          let names := all ++ (namesIn tree address).filter fun name =>
            options.has 'a' || options.has 'A' || name.toList.head? != some '.'
          for name in if options.has 'r' then names.reverse else names do
            Step.print (name ++ "\n")
      | .error _ => pure ()

/-- The last name of a path, without an ending. -/
def shortName (path ending : String) : String :=
  let name := ((FileTree.trimSlashes path).toList.reverse.takeWhile (· != '/')).reverse
  let shown := if name.isEmpty && !path.isEmpty then ['/'] else name
  let stop := ending.toList
  .ofList (if stop.isSuffixOf shown && stop != shown then shown.take (shown.length - stop.length)
    else shown)

def basename (arguments : List String) : Step Unit :=
  Step.withOptions 1 ⟨['a', 'z'], ['s'], []⟩ (Options.inOrder arguments) fun options => do
    match options.operands, options.has 'a' || (options.value? 's').isSome with
    | [], _ => Step.usage 1 "missing operand"
    | paths, true =>
        for path in paths do
          Step.print (shortName path ((options.value? 's').getD "") ++ "\n")
    | [path], false => Step.print (shortName path "" ++ "\n")
    | [path, ending], false => Step.print (shortName path ending ++ "\n")
    | _ :: _ :: extra :: _, false => Step.usage 1 ("extra operand " ++ quoted extra)

def dirname (arguments : List String) : Step Unit :=
  Step.withOptions 1 ⟨['z'], [], []⟩ (Options.inOrder arguments) fun options => do
    if options.operands.isEmpty then Step.usage 1 "missing operand"
    else
      for path in options.operands do
        let above := (FileTree.trimSlashes path).toList.reverse.dropWhile (· != '/')
        let trimmed := above.dropWhile (· == '/')
        let shown := if !trimmed.isEmpty then trimmed.reverse
          else if above.isEmpty && path.toList.head? != some '/' then ['.'] else ['/']
        Step.print (.ofList (shown ++ ['\n']))

end Tool

end Coroscript.Shell
