import RibMap.Analysis
import RibMap.Analysis.Operation
import RibMap.CommandLine.Arguments
import RibMap.CommandLine.Line
import RibMap.CommandLine.Log
import RibMap.CommandLine.Report
import RibMap.CommandLine.Run
import RibMap.CommandLine.Style
import RibMap.Declaration
import RibMap.Declaration.Written
import RibMap.Dump
import RibMap.Edge
import RibMap.Edge.Extraction
import RibMap.Edge.Written
import RibMap.EdgeSet
import RibMap.Event
import RibMap.FileSystem
import RibMap.Hierarchy
import RibMap.Json.Shape
import RibMap.Json.Value
import RibMap.Mindmap
import RibMap.Naming
import RibMap.Path
import RibMap.Settings
import RibMap.Sink
import RibMap.Sources.Collection
import RibMap.Sources.Error
import RibMap.Sources.Loading
import RibMap.Swift.Syntax
import RibMap.Text.Blank
import RibMap.Text.Cut
import RibMap.Text.Numeral
import RibMap.Walk
import RibMap.Reference.CommandLine.Arguments
import RibMap.Reference.CommandLine.Log
import RibMap.Reference.CommandLine.Report
import RibMap.Reference.Json.Decimal
import RibMap.Reference.Json.Error
import RibMap.Reference.Json.Library
import RibMap.Reference.Json.Number
import RibMap.Reference.Json.Printer
import RibMap.Reference.Json.Reader
import RibMap.Reference.Json.Scalar
import RibMap.Reference.Json.Skip
import RibMap.Reference.Swift.Outline
import RibMap.Reference.Swift.Token
import RibMap.Reference.Text.Place
import RibMap.Reference.Text.Printable
import RibMap.Reference.Text.Quoted
import RibMap.Proofs.Acquisition
import RibMap.Proofs.Analysis.Atomicity
import RibMap.Proofs.Analysis.Batches
import RibMap.Proofs.CommandLine.Delivery
import RibMap.Proofs.CommandLine.Failure
import RibMap.Proofs.CommandLine.Lines
import RibMap.Proofs.CommandLine.Listing
import RibMap.Proofs.CommandLine.Precedence
import RibMap.Proofs.Declaration.Meaning
import RibMap.Proofs.Declaration.RoundTrip
import RibMap.Proofs.Dump.Meaning
import RibMap.Proofs.Dump.Rearrangement
import RibMap.Proofs.EdgeSet
import RibMap.Proofs.EdgeSet.History
import RibMap.Proofs.Extraction
import RibMap.Proofs.FileSystem.LookUp
import RibMap.Proofs.FileSystem.Writing
import RibMap.Proofs.Json.Decoding
import RibMap.Proofs.Json.Reading
import RibMap.Proofs.Json.Rules
import RibMap.Proofs.Json.Spelling
import RibMap.Proofs.Json.Unambiguity
import RibMap.Proofs.Mindmap.Reading
import RibMap.Proofs.Mindmap.Writing
import RibMap.Proofs.Naming
import RibMap.Proofs.Naming.Removal
import RibMap.Proofs.Parenthood
import RibMap.Proofs.Path.Order
import RibMap.Proofs.Plan
import RibMap.Proofs.Reference.CommandLine.Arguments
import RibMap.Proofs.Reference.Json.Compact
import RibMap.Proofs.Reference.Json.Decoding
import RibMap.Proofs.Reference.Json.Indented
import RibMap.Proofs.Reference.Json.Library
import RibMap.Proofs.Reference.Json.Records
import RibMap.Proofs.Reference.Json.Shapes
import RibMap.Proofs.Reference.Json.SpelledNumber
import RibMap.Proofs.Reference.Json.SpelledText
import RibMap.Proofs.Reference.Json.SpelledValue
import RibMap.Proofs.Reference.Swift.Cutting
import RibMap.Proofs.Reference.Swift.Outlining
import RibMap.Proofs.Reference.Swift.Printed
import RibMap.Proofs.Settings
import RibMap.Proofs.Sources.Exactness
import RibMap.Proofs.Sources.Loading
import RibMap.Proofs.Sources.Opening
import RibMap.Proofs.Sources.Search
import RibMap.Proofs.Sources.Skipping
import RibMap.Proofs.Sources.Termination
import RibMap.Proofs.Swift.Tree
import RibMap.Proofs.Text.Numeral
import RibMap.Proofs.Text.Occurrence
import RibMap.Proofs.Walk.Ancestry
import RibMap.Proofs.Walk.Branch
import RibMap.Proofs.Walk.ChangingLimit
import RibMap.Proofs.Walk.Course
import RibMap.Proofs.Walk.CycleDetection
import RibMap.Proofs.Walk.CycleLog
import RibMap.Proofs.Walk.DepthLimit
import RibMap.Proofs.Walk.Distance
import RibMap.Proofs.Walk.Exhaustion
import RibMap.Proofs.Walk.Growth
import RibMap.Proofs.Walk.NamePath
import RibMap.Proofs.Walk.Nameless
import RibMap.Proofs.Walk.Relevance
import RibMap.Proofs.Walk.Rendering
import RibMap.Proofs.Walk.SimplePath
import RibMap.Proofs.Walk.Subtree
