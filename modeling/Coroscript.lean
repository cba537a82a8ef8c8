import Coroscript.Main
import Coroscript.Shell.Run
import Coroscript.Proofs.Grammar.Spelling
import Coroscript.Proofs.Grammar.Completeness
import Coroscript.Proofs.Grammar.Soundness
import Coroscript.Proofs.Grammar.Strata
import Coroscript.Proofs.Grammar.Contexts
import Coroscript.Proofs.Grammar.Canonical
import Coroscript.Proofs.Grammar.ReadBack
import Coroscript.Proofs.Grammar.Programs
import Coroscript.Proofs.Cpp.Grammar
import Coroscript.Proofs.Cpp.Lexer
import Coroscript.Proofs.Cpp.Denotation
import Coroscript.Proofs.Cpp.Quotes
import Coroscript.Proofs.Cpp.Legible
import Coroscript.Proofs.Emit.Reference
import Coroscript.Proofs.Token.Writing
import Coroscript.Proofs.Emit.Grouping
import Coroscript.Proofs.Name.Registry
import Coroscript.Proofs.Emit.Changes
import Coroscript.Proofs.Emit.Bookkeeping
import Coroscript.Proofs.Emit.History
import Coroscript.Proofs.Static.Rules
import Coroscript.Proofs.Static.Statements
import Coroscript.Proofs.Static.Programs
import Coroscript.Proofs.Coroutine.Code
import Coroscript.Proofs.Coroutine.Lowering
import Coroscript.Proofs.Coroutine.Order
import Coroscript.Proofs.Coroutine.Counting
import Coroscript.Proofs.Coroutine.Resumption
import Coroscript.Proofs.Coroutine.Labels
import Coroscript.Proofs.Coroutine.Stretches
import Coroscript.Proofs.Token.Language
import Coroscript.Proofs.Token.Tiling
import Coroscript.Proofs.Matching.Steps
import Coroscript.Proofs.Matching.Trees
import Coroscript.Proofs.Matching.Reading
import Coroscript.Proofs.Matching.Emission
import Coroscript.Proofs.Compile.Layout
import Coroscript.Proofs.Compile.Faults
import Coroscript.Proofs.Cpp.Scope
import Coroscript.Proofs.Emit.Output
import Coroscript.Proofs.Emit.Binding
import Coroscript.Proofs.Compile.Words
import Coroscript.Proofs.Compile.Places
import Coroscript.Proofs.Emit.Strings
import Coroscript.Proofs.Compile.Strings
import Coroscript.Proofs.Emit.Restoring
import Coroscript.Proofs.Tree.Nodes
import Coroscript.Proofs.Emit.FirstFault
import Coroscript.Proofs.Emit.Streaming
import Coroscript.Proofs.Token.Slices
import Coroscript.Proofs.Token.Printing
import Coroscript.Proofs.Literal.Pieces
import Coroscript.Proofs.Literal.Shared
import Coroscript.Proofs.Grammar.Located
import Coroscript.Proofs.Grammar.Spans
import Coroscript.Proofs.Compile.Spans
import Coroscript.Proofs.Name.Agreement
import Coroscript.Proofs.Emit.Independence
import Coroscript.Proofs.Source.Locations
import Coroscript.Proofs.Source.Carets
import Coroscript.Proofs.Cpp.Margins
import Coroscript.Proofs.Cpp.Reading
import Coroscript.Proofs.Cpp.Weaving
import Coroscript.Proofs.Emit.Margins
import Coroscript.Proofs.Emit.Weaving
import Coroscript.Proofs.Emit.Flattening
import Coroscript.Proofs.Compile.Balance
import Coroscript.Proofs.Compile.EntryPoint
import Coroscript.Proofs.Grammar.Lockstep
import Coroscript.Proofs.Grammar.Progress
import Coroscript.Proofs.Grammar.EndMarks
import Coroscript.Proofs.Files.Walking
import Coroscript.Proofs.Build.Presence
import Coroscript.Proofs.Emit.Templates
