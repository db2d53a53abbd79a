import StagedScript.Json.Convert
import StagedScript.Json.Read
import StagedScript.Record.Define
import StagedScript.Shape.Hash
import StagedScript.Proofs.Alike.Matching
import StagedScript.Proofs.Alike.Values
import StagedScript.Proofs.Alike.Library
import StagedScript.Proofs.Alike.Builtins
import StagedScript.Proofs.Alike.Evaluation
import StagedScript.Proofs.Alike.Flow
import StagedScript.Proofs.Closures
import StagedScript.Proofs.Maker.Header
import StagedScript.Proofs.Maker.Written
import StagedScript.Proofs.Records.Class
import StagedScript.Proofs.Records.Defined
import StagedScript.Proofs.Records.Exact
import StagedScript.Proofs.Records.Names
import StagedScript.Proofs.Records.Filled
import StagedScript.Proofs.Records.Views
import StagedScript.Proofs.Binding
import StagedScript.Proofs.Unrolling.Calls
import StagedScript.Proofs.Unrolling.Meaning
import StagedScript.Proofs.Unrolling.Shadowing
import StagedScript.Proofs.Unrolling.Specialized
import StagedScript.Proofs.Parsing.Grammar
import StagedScript.Proofs.Parsing.Precedence
import StagedScript.Proofs.Parsing.Brackets
import StagedScript.Proofs.Parsing.Grouping
import StagedScript.Proofs.Data.ReadBack
import StagedScript.Proofs.Data.Exchange
import StagedScript.Proofs.Control.Ending
import StagedScript.Proofs.Layout.Resolved
import StagedScript.Proofs.Scoping.Captures
import StagedScript.Proofs.Scoping.Writes
import StagedScript.Proofs.Outline.Nesting
import StagedScript.Proofs.Specializing.Made
import StagedScript.Proofs.Reading.Margins
import StagedScript.Proofs.Reading.Reread
import StagedScript.Proofs.Parsing.Definitions
import StagedScript.Proofs.Layout.Below
import StagedScript.Proofs.Layout.Located
import StagedScript.Proofs.Parsing.Sites
import StagedScript.Proofs.Reading.TokenEnds
import StagedScript.Proofs.Reading.Positions
import StagedScript.Proofs.Comparing.Equality
import StagedScript.Proofs.Comparing.Order
import StagedScript.Proofs.Comparing.Extremes
import StagedScript.Proofs.Unrolling.Placement
import StagedScript.Proofs.Parsing.Named
import StagedScript.Proofs.Specializing.Chosen
import StagedScript.Proofs.Arithmetic
import StagedScript.Proofs.Writing.Balanced
import StagedScript.Proofs.Parsing.Progress
import StagedScript.Proofs.Parsing.Recovery
import StagedScript.Proofs.Stopping.Calls
import StagedScript.Proofs.Maker.Again
import StagedScript.Proofs.Parsing.Parameters
import StagedScript.Proofs.Specializing.Composed
import StagedScript.Proofs.Specializing.Decorated
import StagedScript.Proofs.Specializing.WellFormed
import StagedScript.Proofs.Ranges.Measured
import StagedScript.Proofs.Sequences
import StagedScript.Proofs.Showing.Guarded
import StagedScript.Proofs.Showing.Formatted
import StagedScript.Proofs.Unrolling.Expansion
import StagedScript.Proofs.Unrolling.Refused
import StagedScript.Proofs.Unrolling.Naming
import StagedScript.Proofs.Writing.Templates
import StagedScript.Proofs.Writing.Dedented
import StagedScript.Proofs.Writing.Staging
import StagedScript.Proofs.Reading.Names
import StagedScript.Proofs.Parsing.Extents
import StagedScript.Proofs.Parsing.Recovered
