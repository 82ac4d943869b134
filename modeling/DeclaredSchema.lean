import DeclaredSchema.Calendar
import DeclaredSchema.CommandLine.Arguments
import DeclaredSchema.CommandLine.Command
import DeclaredSchema.CommandLine.Run
import DeclaredSchema.Compilation
import DeclaredSchema.Configuration
import DeclaredSchema.Declaration
import DeclaredSchema.Declaration.Error
import DeclaredSchema.Declaration.Lineage
import DeclaredSchema.Declaration.OfTokens
import DeclaredSchema.Declaration.Scope
import DeclaredSchema.Declaration.Site
import DeclaredSchema.Declaration.Size
import DeclaredSchema.Declaration.Strip
import DeclaredSchema.Descriptor
import DeclaredSchema.Descriptor.Default
import DeclaredSchema.Descriptor.Label
import DeclaredSchema.Extraction
import DeclaredSchema.FileSystem
import DeclaredSchema.KeyedList
import DeclaredSchema.Literal
import DeclaredSchema.Main
import DeclaredSchema.Number.Binary64
import DeclaredSchema.Number.Reading
import DeclaredSchema.Number.Shortest
import DeclaredSchema.Options
import DeclaredSchema.Proofs.Agreement
import DeclaredSchema.Proofs.Calendar
import DeclaredSchema.Proofs.CommandLine.Delivery
import DeclaredSchema.Proofs.Compilation.Boundary
import DeclaredSchema.Proofs.Compilation.Defaults
import DeclaredSchema.Proofs.Compilation.Names
import DeclaredSchema.Proofs.Compilation.TextScalars
import DeclaredSchema.Proofs.Compilation.UnionMembers
import DeclaredSchema.Proofs.Compilation.Unions
import DeclaredSchema.Proofs.Configuration
import DeclaredSchema.Proofs.Coupling
import DeclaredSchema.Proofs.Declaration.Absence
import DeclaredSchema.Proofs.Declaration.Arity
import DeclaredSchema.Proofs.Declaration.Choices
import DeclaredSchema.Proofs.Declaration.Completeness
import DeclaredSchema.Proofs.Declaration.File
import DeclaredSchema.Proofs.Declaration.Flattening
import DeclaredSchema.Proofs.Declaration.Grammar
import DeclaredSchema.Proofs.Declaration.Inheritance
import DeclaredSchema.Proofs.Declaration.Leaves
import DeclaredSchema.Proofs.Declaration.Numerals
import DeclaredSchema.Proofs.Declaration.Phrases
import DeclaredSchema.Proofs.Declaration.Refusal
import DeclaredSchema.Proofs.Declaration.Rendering
import DeclaredSchema.Proofs.Declaration.RoundTrip
import DeclaredSchema.Proofs.Declaration.Size
import DeclaredSchema.Proofs.Declaration.Soundness
import DeclaredSchema.Proofs.Declaration.Stripping
import DeclaredSchema.Proofs.Declaration.TopLevel
import DeclaredSchema.Proofs.Declaration.Unwrapping
import DeclaredSchema.Proofs.Declaration.ViablePrefix
import DeclaredSchema.Proofs.Declaration.Widening
import DeclaredSchema.Proofs.Declaration.Writing
import DeclaredSchema.Proofs.Descriptor.Alike
import DeclaredSchema.Proofs.Except
import DeclaredSchema.Proofs.Extraction.Acceptance
import DeclaredSchema.Proofs.Extraction.Alike
import DeclaredSchema.Proofs.Extraction.Blame
import DeclaredSchema.Proofs.Extraction.Cause
import DeclaredSchema.Proofs.Extraction.Defaults
import DeclaredSchema.Proofs.Extraction.Depth
import DeclaredSchema.Proofs.Extraction.Ending
import DeclaredSchema.Proofs.Extraction.Flattening
import DeclaredSchema.Proofs.Extraction.Identity
import DeclaredSchema.Proofs.Extraction.Inheritance
import DeclaredSchema.Proofs.Extraction.Invariant
import DeclaredSchema.Proofs.Extraction.Lockstep
import DeclaredSchema.Proofs.Extraction.Meaning
import DeclaredSchema.Proofs.Extraction.Members
import DeclaredSchema.Proofs.Extraction.Moves
import DeclaredSchema.Proofs.Extraction.Nullability
import DeclaredSchema.Proofs.Extraction.NullableAlias
import DeclaredSchema.Proofs.Extraction.Place
import DeclaredSchema.Proofs.Extraction.Reorder
import DeclaredSchema.Proofs.Extraction.Resolve
import DeclaredSchema.Proofs.Extraction.Table
import DeclaredSchema.Proofs.Extraction.TextUnions
import DeclaredSchema.Proofs.Extraction.Widening
import DeclaredSchema.Proofs.Failure
import DeclaredSchema.Proofs.KeyedList
import DeclaredSchema.Proofs.Literal
import DeclaredSchema.Proofs.Number.Decimal
import DeclaredSchema.Proofs.Order
import DeclaredSchema.Proofs.Scalar.Date
import DeclaredSchema.Proofs.Scalar.Timestamp
import DeclaredSchema.Proofs.Simulation
import DeclaredSchema.Proofs.Step
import DeclaredSchema.Proofs.Synthesis.Alike
import DeclaredSchema.Proofs.Synthesis.Defaults
import DeclaredSchema.Proofs.Synthesis.Draft
import DeclaredSchema.Proofs.Synthesis.Ending
import DeclaredSchema.Proofs.Synthesis.Exactness
import DeclaredSchema.Proofs.Synthesis.Image
import DeclaredSchema.Proofs.Synthesis.Invariant
import DeclaredSchema.Proofs.Synthesis.Starts
import DeclaredSchema.Proofs.Synthesis.Members
import DeclaredSchema.Proofs.Synthesis.Records
import DeclaredSchema.Proofs.Synthesis.Refusal
import DeclaredSchema.Proofs.Synthesis.Run
import DeclaredSchema.Proofs.Synthesis.Soundness
import DeclaredSchema.Proofs.Synthesis.Sources
import DeclaredSchema.Proofs.Synthesis.Visit
import DeclaredSchema.Proofs.Text.Apart
import DeclaredSchema.Proofs.Token.Cut
import DeclaredSchema.Proofs.Token.Documentation
import DeclaredSchema.Proofs.Token.Lexeme
import DeclaredSchema.Proofs.Token.LineEnding
import DeclaredSchema.Proofs.Token.Writing
import DeclaredSchema.Proofs.Value
import DeclaredSchema.Scalar
import DeclaredSchema.Scalar.BuiltIn
import DeclaredSchema.Scalar.Date
import DeclaredSchema.Scalar.Fault
import DeclaredSchema.Schema
import DeclaredSchema.Schema.Name
import DeclaredSchema.Sdl.Default
import DeclaredSchema.Sdl.Printer
import DeclaredSchema.Sdl.Quoting
import DeclaredSchema.Sdl.ValueNode
import DeclaredSchema.Synthesis
import DeclaredSchema.Synthesis.Error
import DeclaredSchema.Text.Blank
import DeclaredSchema.Text.CharRanges
import DeclaredSchema.Text.CodeText
import DeclaredSchema.Text.Letter
import DeclaredSchema.Text.Lowercase
import DeclaredSchema.Text.Numeral
import DeclaredSchema.Text.Printable
import DeclaredSchema.Text.Quoted
import DeclaredSchema.Token
import DeclaredSchema.Token.Doc
import DeclaredSchema.Token.Scan
import DeclaredSchema.Trace
import DeclaredSchema.Value
import DeclaredSchema.Yaml.Atom
import DeclaredSchema.Yaml.Atom.OfText
import DeclaredSchema.Yaml.Cursor
import DeclaredSchema.Yaml.Data
import DeclaredSchema.Yaml.Data.OfDocument
import DeclaredSchema.Yaml.Fault
import DeclaredSchema.Yaml.Merge
import DeclaredSchema.Yaml.Moment
import DeclaredSchema.Yaml.Node
import DeclaredSchema.Yaml.Scalar
import DeclaredSchema.Yaml.Tag
import DeclaredSchema.Yaml.Token
