import Coroscript.Emit.Item
import Coroscript.Grammar.Stmt
import Coroscript.Token.Scan

namespace Coroscript

/-! From source text to the text of a C++ program. -/

/-- The C++ program that a program means. -/
def Program.compile (program : Program) : Except Error String :=
  (Emit.unit program .initial).1

/-- The C++ program that a source text means, or the first thing that is wrong
with it. -/
def compileSource (source file : String) : Except Error String := do
  let tokens ← Token.scan source file
  let program ← Program.ofTokens tokens file
  program.compile

end Coroscript
