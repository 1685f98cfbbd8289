import SqlDialects.Document.Settings
import SqlDialects.Query.Kind
import SqlDialects.Query.Transform
import SqlDialects.Render.Query
import SqlDialects.Schema.Reader
import SqlDialects.Scope.Summary
import SqlDialects.VersionGraph
import SqlDialects.Proofs.Render.Simulation
import SqlDialects.Proofs.Render.Splice
import SqlDialects.Proofs.Render.Field
import SqlDialects.Proofs.Render.Select
import SqlDialects.Proofs.Render.Parts
import SqlDialects.Proofs.Render.Weave
import SqlDialects.Proofs.Render.Placeholders
import SqlDialects.Proofs.Query.CommonTables
import SqlDialects.Proofs.Query.Equality
import SqlDialects.Proofs.Scope
import SqlDialects.Proofs.Render.Emission
import SqlDialects.Proofs.Render.Hoisting
import SqlDialects.Proofs.Render.Resolution
import SqlDialects.Proofs.Query.Rewriting
import SqlDialects.Proofs.Render.Nested
import SqlDialects.Proofs.Render.Levels
import SqlDialects.Proofs.Grammar.Token
import SqlDialects.Proofs.Grammar.Expression
import SqlDialects.Proofs.Grammar.Reading
import SqlDialects.Proofs.Grammar.Lexing
import SqlDialects.Proofs.Grammar.Spelling
import SqlDialects.Proofs.Grammar.Writing
import SqlDialects.Proofs.Grammar.Arithmetic
import SqlDialects.Proofs.Grammar.Dashes
import SqlDialects.Proofs.Grammar.Literals
import SqlDialects.Proofs.Grammar.Truth
import SqlDialects.Proofs.Grammar.Conditions
import SqlDialects.Proofs.Grammar.Operands
import SqlDialects.Proofs.Grammar.Building
import SqlDialects.Proofs.Grammar.Runs
import SqlDialects.Proofs.Grammar.Predicates
import SqlDialects.Proofs.Grammar.Collapse
import SqlDialects.Proofs.Grammar.Displacement
import SqlDialects.Proofs.Grammar.Infix
import SqlDialects.Proofs.Scope.Runs
import SqlDialects.Proofs.Render.Layout
import SqlDialects.Proofs.Scope.Flatten
import SqlDialects.Proofs.Render.Aliases
import SqlDialects.Proofs.Render.Effect
import SqlDialects.Proofs.Scope.Above
import SqlDialects.Proofs.Render.Transparent
import SqlDialects.Proofs.Scope.Blocks
import SqlDialects.Proofs.Grammar.Lexeme
import SqlDialects.Proofs.Grammar.Backslash
import SqlDialects.Proofs.Text.Words
import SqlDialects.Proofs.Schema.Cuts
import SqlDialects.Proofs.Schema.Columns
import SqlDialects.Proofs.Schema.Creation
import SqlDialects.Proofs.Schema.Keywords
import SqlDialects.Proofs.Schema.Elements
import SqlDialects.Proofs.Schema.SelectList
import SqlDialects.Proofs.Schema.Targets
import SqlDialects.Proofs.Schema.Casts
import SqlDialects.Proofs.Schema.Heads
import SqlDialects.Proofs.Schema.WithoutRowid
import SqlDialects.Proofs.Schema.Names
import SqlDialects.Proofs.Schema.Autoincrement
import SqlDialects.Proofs.Text.Offsets
import SqlDialects.Proofs.Schema.Scanners
import SqlDialects.Proofs.Schema.Slices
import SqlDialects.Proofs.Render.Hygiene
import SqlDialects.Proofs.Query.ColumnNames
import SqlDialects.Proofs.Query.Evaluation
import SqlDialects.Proofs.Query.Extremum
import SqlDialects.Proofs.Query.RowTest
import SqlDialects.Proofs.Query.Absence
import SqlDialects.Proofs.VersionGraph.CommonAncestor
import SqlDialects.Proofs.VersionGraph.Insertion
import SqlDialects.Proofs.Query.Extensionality
import SqlDialects.Proofs.Query.Postorder
import SqlDialects.Proofs.Query.Assembly
import SqlDialects.Proofs.Render.Regrouping
import SqlDialects.Proofs.Grammar.Meaning
import SqlDialects.Proofs.Grammar.Wrapping
import SqlDialects.Proofs.Render.Declaring
import SqlDialects.Proofs.Query.OutputNames
import SqlDialects.Proofs.Schema.DeclaredTypes
import SqlDialects.Proofs.Schema.Sessions
import SqlDialects.Proofs.Render.Segments
import SqlDialects.Proofs.Schema.Parentheses
import SqlDialects.Proofs.Render.Termination
import SqlDialects.Proofs.Grammar.Legibility
