import UnitAtlas.Backend
import UnitAtlas.Bytecode.Assembler
import UnitAtlas.Bytecode.LineDeltas
import UnitAtlas.Bytecode.Opcode
import UnitAtlas.Calibration
import UnitAtlas.Classifier
import UnitAtlas.Command.Argument
import UnitAtlas.Command.Basic
import UnitAtlas.Command.Given
import UnitAtlas.Command.Grammar
import UnitAtlas.Command.Implicit
import UnitAtlas.Command.Listings
import UnitAtlas.Command.Program
import UnitAtlas.Command.Settings
import UnitAtlas.Compiler
import UnitAtlas.Digest.Sha256
import UnitAtlas.Draft.Assembly
import UnitAtlas.Draft.Basic
import UnitAtlas.Draft.Builder
import UnitAtlas.Entity.Methods
import UnitAtlas.Entity.Path
import UnitAtlas.Entity.Tree
import UnitAtlas.Fault
import UnitAtlas.Files.Glob.Matching
import UnitAtlas.Files.Glob.Pattern
import UnitAtlas.Files.Glob.Token
import UnitAtlas.Files.Ignore
import UnitAtlas.Files.Path
import UnitAtlas.Files.System
import UnitAtlas.Files.Walk
import UnitAtlas.Main
import UnitAtlas.Number.Double
import UnitAtlas.Number.Numeral
import UnitAtlas.Proofs.Bytecode.Breakpoints
import UnitAtlas.Proofs.Bytecode.Disassembly
import UnitAtlas.Proofs.Bytecode.History
import UnitAtlas.Proofs.Bytecode.Jumps
import UnitAtlas.Proofs.Bytecode.LineDeltas
import UnitAtlas.Proofs.Bytecode.Operands
import UnitAtlas.Proofs.Bytecode.Sweep
import UnitAtlas.Proofs.Calibration
import UnitAtlas.Proofs.Command.Implicit
import UnitAtlas.Proofs.Command.Launches
import UnitAtlas.Proofs.Command.SoundFiles
import UnitAtlas.Proofs.Command.Status
import UnitAtlas.Proofs.Compiler.Classes
import UnitAtlas.Proofs.Compiler.Comments
import UnitAtlas.Proofs.Compiler.DefinitionWindows
import UnitAtlas.Proofs.Compiler.Definitions
import UnitAtlas.Proofs.Compiler.Lambdas
import UnitAtlas.Proofs.Compiler.Operands
import UnitAtlas.Proofs.Compiler.Signatures
import UnitAtlas.Proofs.Compiler.Spans
import UnitAtlas.Proofs.Compiler.SyntaxErrors
import UnitAtlas.Proofs.Compiler.Units
import UnitAtlas.Proofs.Compiler.Windows
import UnitAtlas.Proofs.Draft.Code
import UnitAtlas.Proofs.Draft.Filled
import UnitAtlas.Proofs.Draft.Finished
import UnitAtlas.Proofs.Draft.Growth
import UnitAtlas.Proofs.Draft.Lambdas
import UnitAtlas.Proofs.Draft.Lookups
import UnitAtlas.Proofs.Draft.Parameters
import UnitAtlas.Proofs.Draft.Parts
import UnitAtlas.Proofs.Draft.Shape
import UnitAtlas.Proofs.Draft.Steps
import UnitAtlas.Proofs.Draft.Tables
import UnitAtlas.Proofs.Draft.Written
import UnitAtlas.Proofs.Entity.Addresses
import UnitAtlas.Proofs.Entity.Malformed
import UnitAtlas.Proofs.Entity.Methods
import UnitAtlas.Proofs.Entity.Preorder
import UnitAtlas.Proofs.Entity.QualifiedNames
import UnitAtlas.Proofs.Entity.Readable
import UnitAtlas.Proofs.Entity.Words
import UnitAtlas.Proofs.Fault
import UnitAtlas.Proofs.Files.Appending
import UnitAtlas.Proofs.Files.Changes
import UnitAtlas.Proofs.Files.LogFiles
import UnitAtlas.Proofs.Files.Paths
import UnitAtlas.Proofs.Files.Sound
import UnitAtlas.Proofs.Files.Walks
import UnitAtlas.Proofs.Reading.ClassWindows
import UnitAtlas.Proofs.Reading.Clauses
import UnitAtlas.Proofs.Reading.CompoundLambdas
import UnitAtlas.Proofs.Reading.CompoundSuites
import UnitAtlas.Proofs.Reading.DefinedUnits
import UnitAtlas.Proofs.Reading.DefinitionLambdas
import UnitAtlas.Proofs.Reading.DefinitionUnits
import UnitAtlas.Proofs.Reading.DefinitionWindows
import UnitAtlas.Proofs.Reading.Draws
import UnitAtlas.Proofs.Reading.ExpressionLambdas
import UnitAtlas.Proofs.Reading.LambdaUnits
import UnitAtlas.Proofs.Reading.Lines
import UnitAtlas.Proofs.Reading.Literals
import UnitAtlas.Proofs.Reading.NestedUnits
import UnitAtlas.Proofs.Reading.Nodes
import UnitAtlas.Proofs.Reading.Shape
import UnitAtlas.Proofs.Reading.Signatures
import UnitAtlas.Proofs.Reading.StatementLambdas
import UnitAtlas.Proofs.Reading.StatementShape
import UnitAtlas.Proofs.Reading.Suites
import UnitAtlas.Proofs.Reading.Trivia
import UnitAtlas.Proofs.Reading.Values
import UnitAtlas.Proofs.Reading.Yields
import UnitAtlas.Proofs.Report.Collect
import UnitAtlas.Proofs.Report.Text
import UnitAtlas.Proofs.Session.Answers
import UnitAtlas.Proofs.Session.Containment
import UnitAtlas.Proofs.Session.Events
import UnitAtlas.Proofs.Session.Input
import UnitAtlas.Proofs.Session.Lookup
import UnitAtlas.Proofs.Session.Refusals
import UnitAtlas.Proofs.Session.Replay
import UnitAtlas.Proofs.Session.Resolution
import UnitAtlas.Proofs.Session.Serving
import UnitAtlas.Proofs.Session.Transcript
import UnitAtlas.Proofs.Session.Unlogged
import UnitAtlas.Proofs.Source.Cookie
import UnitAtlas.Proofs.Source.Lines
import UnitAtlas.Proofs.Syntax.Definitions
import UnitAtlas.Proofs.Syntax.Lambdas
import UnitAtlas.Proofs.Syntax.Layout
import UnitAtlas.Proofs.Syntax.Signatures
import UnitAtlas.Proofs.Syntax.Suites
import UnitAtlas.Proofs.Syntax.Trivia
import UnitAtlas.Proofs.Text.Lines
import UnitAtlas.Proofs.Text.Lossy
import UnitAtlas.Proofs.Text.Trimmed
import UnitAtlas.Proofs.Text.Utf8
import UnitAtlas.Proofs.Unit.Definitions
import UnitAtlas.Proofs.Unit.Identity
import UnitAtlas.Proofs.Unit.LineTable
import UnitAtlas.Proofs.Unit.LineWindow
import UnitAtlas.Proofs.Unit.Nesting
import UnitAtlas.Proofs.Unit.SplitDeltas
import UnitAtlas.Proofs.Unit.Token
import UnitAtlas.Proofs.Unit.Window
import UnitAtlas.Proofs.Unit.WrittenWindow
import UnitAtlas.Proofs.Wire.Codec
import UnitAtlas.Reading.Basic
import UnitAtlas.Reading.Compound
import UnitAtlas.Reading.Definition
import UnitAtlas.Reading.Expression
import UnitAtlas.Reading.Literal
import UnitAtlas.Reading.Parameters
import UnitAtlas.Reading.Statement
import UnitAtlas.Reading.Target
import UnitAtlas.Reading.Tree
import UnitAtlas.Report.Basic
import UnitAtlas.Report.Collect
import UnitAtlas.Report.Json
import UnitAtlas.Report.Text
import UnitAtlas.Session.Input
import UnitAtlas.Session.Log
import UnitAtlas.Session.Lookup
import UnitAtlas.Session.Service
import UnitAtlas.Source.Analysis
import UnitAtlas.Source.Decoding
import UnitAtlas.Syntax.Kind
import UnitAtlas.Syntax.Listing
import UnitAtlas.Syntax.Node
import UnitAtlas.Text.Blank
import UnitAtlas.Text.Chain
import UnitAtlas.Text.Hex
import UnitAtlas.Text.Lines
import UnitAtlas.Text.Quoted
import UnitAtlas.Text.Unseen
import UnitAtlas.Text.Utf8
import UnitAtlas.Unit.Basic
import UnitAtlas.Unit.Identity
import UnitAtlas.Unit.LineTable
import UnitAtlas.Unit.Parameters
import UnitAtlas.Window
import UnitAtlas.Wire.Response
