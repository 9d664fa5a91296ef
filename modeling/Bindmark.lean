import Bindmark.Binary.Basic
import Bindmark.Binary.Shortest
import Bindmark.Compiler.Basic
import Bindmark.Compiler.Document
import Bindmark.Compiler.Standard
import Bindmark.Compiler.Visit
import Bindmark.Datum.Basic
import Bindmark.Datum.Display
import Bindmark.Datum.Read
import Bindmark.Datum.Write
import Bindmark.Directive.Preprocess
import Bindmark.Directive.Stage
import Bindmark.Fault
import Bindmark.Filter.Calls
import Bindmark.Filter.Token
import Bindmark.Handler.Basic
import Bindmark.Html.Printer
import Bindmark.Html.Reference
import Bindmark.Html.Token
import Bindmark.Html.Tree
import Bindmark.Interpolation.Attributes
import Bindmark.Interpolation.Block
import Bindmark.Interpolation.Text
import Bindmark.Interpolation.Value
import Bindmark.Log
import Bindmark.Node
import Bindmark.Node.Stage
import Bindmark.Pair.Basic
import Bindmark.Pair.Directives
import Bindmark.Pair.Object
import Bindmark.Pipeline
import Bindmark.Proofs.AddingChains
import Bindmark.Proofs.Amending
import Bindmark.Proofs.Atoms
import Bindmark.Proofs.AttributeNames
import Bindmark.Proofs.AttributeNamespace
import Bindmark.Proofs.Balance
import Bindmark.Proofs.Configuring
import Bindmark.Proofs.Depths
import Bindmark.Proofs.Dispatching
import Bindmark.Proofs.Dividers
import Bindmark.Proofs.Expanding
import Bindmark.Proofs.FilterBalance
import Bindmark.Proofs.FilterCalls
import Bindmark.Proofs.FilterTables
import Bindmark.Proofs.FilteredAttributes
import Bindmark.Proofs.FilteredTwice
import Bindmark.Proofs.FirstAnswers
import Bindmark.Proofs.Gating
import Bindmark.Proofs.Growing
import Bindmark.Proofs.History
import Bindmark.Proofs.InPlace
import Bindmark.Proofs.InstallingTwice
import Bindmark.Proofs.Interpolated
import Bindmark.Proofs.Keeping
import Bindmark.Proofs.LookingUp
import Bindmark.Proofs.MarkerOrder
import Bindmark.Proofs.MarkerReports
import Bindmark.Proofs.Markers
import Bindmark.Proofs.MemberPreprocessors
import Bindmark.Proofs.MemberSpellings
import Bindmark.Proofs.Merging
import Bindmark.Proofs.MovedDirectives
import Bindmark.Proofs.Moving
import Bindmark.Proofs.MovingOnce
import Bindmark.Proofs.Names
import Bindmark.Proofs.Nesting
import Bindmark.Proofs.Numbered
import Bindmark.Proofs.ObjectValues
import Bindmark.Proofs.Occurrence
import Bindmark.Proofs.Outputs
import Bindmark.Proofs.OwnStages
import Bindmark.Proofs.Passes
import Bindmark.Proofs.Pipelines
import Bindmark.Proofs.Properties
import Bindmark.Proofs.PropertyTables
import Bindmark.Proofs.QuotedParts
import Bindmark.Proofs.Quoting
import Bindmark.Proofs.RawTexts
import Bindmark.Proofs.References
import Bindmark.Proofs.Refusals
import Bindmark.Proofs.RemainingAttributes
import Bindmark.Proofs.Rendering
import Bindmark.Proofs.Repeating
import Bindmark.Proofs.Rereading
import Bindmark.Proofs.Rewriting
import Bindmark.Proofs.Scanning
import Bindmark.Proofs.Serials
import Bindmark.Proofs.Settling
import Bindmark.Proofs.Shorthand
import Bindmark.Proofs.Speaking
import Bindmark.Proofs.Splicing
import Bindmark.Proofs.Splitting
import Bindmark.Proofs.Spots
import Bindmark.Proofs.StandardDirectives
import Bindmark.Proofs.StandardExpansions
import Bindmark.Proofs.StandardHandlers
import Bindmark.Proofs.StandardRegistry
import Bindmark.Proofs.Tables
import Bindmark.Proofs.TextNodes
import Bindmark.Proofs.TokenPartition
import Bindmark.Proofs.Trimming
import Bindmark.Proofs.Turns
import Bindmark.Proofs.Twins
import Bindmark.Proofs.TwoPasses
import Bindmark.Proofs.Values
import Bindmark.Proofs.Verbosity
import Bindmark.Proofs.Visits
import Bindmark.Proofs.WordLists
import Bindmark.Proofs.WrittenObjects
import Bindmark.Reading
import Bindmark.Reference
import Bindmark.Registry.Basic
import Bindmark.Registry.Configure
import Bindmark.Registry.Lookup
import Bindmark.Segment
import Bindmark.Segment.Scan
import Bindmark.Settings.Basic
import Bindmark.Settings.Load
import Bindmark.Settings.Marker
import Bindmark.Table
import Bindmark.Text.Basic
import Bindmark.Text.Blank
import Bindmark.Text.Lower
import Bindmark.Text.Printable
import Bindmark.Text.Word
import Bindmark.Work
