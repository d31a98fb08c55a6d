import BlockLang.Analysis.Fault
import BlockLang.Analysis.Outcome
import BlockLang.Analysis.Session
import BlockLang.Artifact.Listing
import BlockLang.Artifact.Log
import BlockLang.Artifact.Path
import BlockLang.Artifact.TokenFile
import BlockLang.Command
import BlockLang.Command.Flag
import BlockLang.Command.Request
import BlockLang.Command.Wording
import BlockLang.Compilation
import BlockLang.Cursor
import BlockLang.Diagnostic
import BlockLang.Fatal
import BlockLang.Grammar.Fault
import BlockLang.Grammar.Goal
import BlockLang.Grammar.Trace
import BlockLang.Lexeme.Automaton
import BlockLang.Lexeme.Fault
import BlockLang.Lexeme.Stream
import BlockLang.Main
import BlockLang.Proofs.Analysis.Acceptance
import BlockLang.Proofs.Analysis.Agreement
import BlockLang.Proofs.Analysis.Cascade
import BlockLang.Proofs.Analysis.Census
import BlockLang.Proofs.Analysis.LineTracking
import BlockLang.Proofs.Analysis.Parameters
import BlockLang.Proofs.Analysis.Parse
import BlockLang.Proofs.Analysis.Quotation
import BlockLang.Proofs.Analysis.Reachability
import BlockLang.Proofs.Analysis.Renaming
import BlockLang.Proofs.Analysis.Returns
import BlockLang.Proofs.Analysis.Scoping
import BlockLang.Proofs.Analysis.Tabulation
import BlockLang.Proofs.Analysis.Visibility
import BlockLang.Proofs.Artifact.Decoding
import BlockLang.Proofs.Artifact.Format
import BlockLang.Proofs.Artifact.Listing
import BlockLang.Proofs.Artifact.Log
import BlockLang.Proofs.Artifact.Path
import BlockLang.Proofs.Artifact.TokenFile
import BlockLang.Proofs.Compilation.Desk
import BlockLang.Proofs.Compilation.Examination
import BlockLang.Proofs.Compilation.Frame
import BlockLang.Proofs.Compilation.Logging
import BlockLang.Proofs.Compilation.Recording
import BlockLang.Proofs.Compilation.Refinement
import BlockLang.Proofs.Compilation.Verdict
import BlockLang.Proofs.Cursor.Lockstep
import BlockLang.Proofs.Cursor.Searching
import BlockLang.Proofs.Grammar.Alikeness
import BlockLang.Proofs.Grammar.Balance
import BlockLang.Proofs.Grammar.Budget
import BlockLang.Proofs.Grammar.Completeness
import BlockLang.Proofs.Grammar.Declared
import BlockLang.Proofs.Grammar.Derivation
import BlockLang.Proofs.Grammar.Extent
import BlockLang.Proofs.Grammar.Headers
import BlockLang.Proofs.Grammar.Soundness
import BlockLang.Proofs.Lexeme.Identifier
import BlockLang.Proofs.Lexeme.Layout
import BlockLang.Proofs.Lexeme.Numbering
import BlockLang.Proofs.Lexeme.Quotation
import BlockLang.Proofs.Lexeme.Rendering
import BlockLang.Proofs.Lexeme.Respacing
import BlockLang.Proofs.Lexeme.Scanner
import BlockLang.Proofs.Lexeme.Shape
import BlockLang.Proofs.Lexeme.Spacing
import BlockLang.Proofs.Storage.Frame
import BlockLang.Proofs.Storage.Locations
import BlockLang.Proofs.Storage.Workspace
import BlockLang.Proofs.Symbol.Declaration
import BlockLang.Proofs.Symbol.History
import BlockLang.Proofs.Symbol.Locality
import BlockLang.Proofs.Symbol.Lookup
import BlockLang.Proofs.Symbol.Nearest
import BlockLang.Proofs.Symbol.Paths
import BlockLang.Proofs.Symbol.Ranges
import BlockLang.Proofs.Symbol.Renaming
import BlockLang.Proofs.Symbol.Rows
import BlockLang.Proofs.Symbol.WellFormed
import BlockLang.Proofs.Syntax.Entries
import BlockLang.Proofs.Syntax.Scoping
import BlockLang.Proofs.Syntax.Tree
import BlockLang.Proofs.Text.Bytes
import BlockLang.Proofs.Text.Chunks
import BlockLang.Proofs.Text.Lines
import BlockLang.Proofs.Text.Pieces
import BlockLang.Proofs.Text.Trimming
import BlockLang.Storage.Fault
import BlockLang.Storage.Store
import BlockLang.Storage.Workspace
import BlockLang.Symbol.Entry
import BlockLang.Symbol.Resolution
import BlockLang.Symbol.Table
import BlockLang.Text.Blank
import BlockLang.Text.Bytes
import BlockLang.Text.Column
import BlockLang.Text.Invisible
import BlockLang.Text.Likeness
import BlockLang.Text.Lines
import BlockLang.Text.Pieces
import BlockLang.Text.Quoted
import BlockLang.Text.Terminal
import BlockLang.Token.Basic
import BlockLang.Token.Kind
