import Coroscript.Files.Tree

namespace Coroscript

/-- What a build needs of the machine it runs on. -/
structure Host (m : Type → Type) where
  read : String → m (Except OsError (List UInt8))
  makeDirectories : String → m (Except OsError Unit)
  emptyDirectory : String → m (Except OsError Unit)
  write : String → List UInt8 → m (Except OsError Unit)
  has : String → m Bool
  /-- Runs a program to its end. The result is what it wrote as messages. -/
  run : String → List String → m (Except OsError (List UInt8))

namespace Host

/-- A program, by its name and arguments, as what it does to the files. -/
abbrev Programs := String → List String → Action OsError FileTree (List UInt8)

/-- A machine that is a file tree and the programs that run on it. -/
def ofTree (programs : Programs) : Host (StateM FileTree) where
  read path := fun tree => (tree.read path, tree)
  makeDirectories := FileTree.makeDirectories
  emptyDirectory := FileTree.emptyDirectory
  write := FileTree.write
  has path := fun tree => (tree.has path, tree)
  run := programs

end Host

end Coroscript
