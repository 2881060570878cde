import ComponentProps.Accessor.Basic
import ComponentProps.Accessor.Json
import ComponentProps.Binding
import ComponentProps.CommandLine.Arguments
import ComponentProps.CommandLine.Request
import ComponentProps.CommandLine.Run
import ComponentProps.Component
import ComponentProps.Decimal.Layout
import ComponentProps.Decimal.Reading
import ComponentProps.Decimal.Shortest
import ComponentProps.Declaration.Basic
import ComponentProps.Declaration.Json
import ComponentProps.Files.Basic
import ComponentProps.Files.Glob.Pattern
import ComponentProps.Files.Glob.Search
import ComponentProps.Files.Path
import ComponentProps.Files.Place
import ComponentProps.Files.Tree
import ComponentProps.Inference
import ComponentProps.Json.Fault
import ComponentProps.Json.Form
import ComponentProps.Json.Pointer
import ComponentProps.Json.Printer
import ComponentProps.Json.Reader
import ComponentProps.Json.Skip
import ComponentProps.Json.Value
import ComponentProps.Kind
import ComponentProps.Literal.Basic
import ComponentProps.Literal.Printer
import ComponentProps.Lowering
import ComponentProps.Main
import ComponentProps.NumberText
import ComponentProps.Placeholder
import ComponentProps.Proofs.Binding.Filling
import ComponentProps.Proofs.Binding.Frame
import ComponentProps.Proofs.Binding.Obstacle
import ComponentProps.Proofs.Binding.Step
import ComponentProps.Proofs.Component.Document
import ComponentProps.Proofs.Json.Grammar
import ComponentProps.Proofs.Json.Reading
import ComponentProps.Proofs.Json.Scalars
import ComponentProps.Proofs.Json.Values
import ComponentProps.Proofs.Literal.Properties
import ComponentProps.Proofs.Shape.Sites
import ComponentProps.Proofs.Shape.WellFormed
import ComponentProps.Shape.Basic
import ComponentProps.Shape.Json
import ComponentProps.Table
import ComponentProps.Tag
import ComponentProps.Text.Escaped
import ComponentProps.Text.Quoted
import ComponentProps.Text.Split
import ComponentProps.Text.Unprintable
import ComponentProps.Proofs.Accessor.WellFormed
import ComponentProps.Proofs.Inference.Levels
import ComponentProps.Proofs.Decimal.Equality
import ComponentProps.Proofs.Inference.Declared
import ComponentProps.Proofs.Binding.Placeholders
import ComponentProps.Proofs.Component.WellFormed
import ComponentProps.Proofs.Inference.Leaves
import ComponentProps.Proofs.Component.Binding
import ComponentProps.Proofs.Inference.Filled
import ComponentProps.Proofs.Accessor.Order
import ComponentProps.Proofs.Inference.Refinement
import ComponentProps.Proofs.Declaration.Order
import ComponentProps.Proofs.Inference.Order
import ComponentProps.Proofs.Files.Tree
import ComponentProps.Proofs.CommandLine.Rendering
import ComponentProps.Proofs.CommandLine.Run
import ComponentProps.Proofs.Shape.PlainData
import ComponentProps.Proofs.Json.Quoted
import ComponentProps.Proofs.Decimal.Numeral
import ComponentProps.Proofs.Decimal.Window
import ComponentProps.Proofs.Decimal.Shortest
import ComponentProps.Proofs.Decimal.NumberText
import ComponentProps.Proofs.Decimal.Rounding
import ComponentProps.Proofs.Literal.Printing
import ComponentProps.Proofs.Literal.Lines
import ComponentProps.Proofs.CommandLine.Listings
import ComponentProps.Proofs.Binding.Stopping
import ComponentProps.Proofs.Shape.Decoding
import ComponentProps.Proofs.Binding.Sessions
import ComponentProps.Proofs.Json.Printed
import ComponentProps.Proofs.CommandLine.Entries
import ComponentProps.Proofs.Literal.Order
import ComponentProps.Proofs.Shape.Order
import ComponentProps.Proofs.Binding.Order
import ComponentProps.Proofs.Inference.Dotted
import ComponentProps.Proofs.Component.Faults
import ComponentProps.Proofs.CommandLine.Append
import ComponentProps.Proofs.Accessor.Paths
import ComponentProps.Proofs.Binding.Aliasing
import ComponentProps.Proofs.Binding.Again
import ComponentProps.Proofs.Binding.Lowering
import ComponentProps.Proofs.Literal.PlainData
import ComponentProps.Proofs.Inference.Faults
import ComponentProps.Proofs.Declaration.Calls
import ComponentProps.Proofs.Decimal.Fewest
import ComponentProps.Proofs.Decimal.Script
import ComponentProps.Proofs.Declaration.Members
