import EditorBridge.Analysis
import EditorBridge.Arguments
import EditorBridge.Completion
import EditorBridge.Cursor
import EditorBridge.Definition
import EditorBridge.Diagnostic
import EditorBridge.Documents
import EditorBridge.ErrorReport
import EditorBridge.Fault
import EditorBridge.FileSystem
import EditorBridge.Hover
import EditorBridge.Json.Display
import EditorBridge.Json.Parser
import EditorBridge.Json.Printer
import EditorBridge.Json.Value
import EditorBridge.Location
import EditorBridge.Log
import EditorBridge.Main
import EditorBridge.Message.Encoding
import EditorBridge.Message.Frame
import EditorBridge.Message.Outgoing
import EditorBridge.Message.Params
import EditorBridge.Number.Binary64
import EditorBridge.Number.Shortest
import EditorBridge.Outline
import EditorBridge.Path
import EditorBridge.Position
import EditorBridge.Program
import EditorBridge.Proofs.Documents
import EditorBridge.Proofs.Effects
import EditorBridge.Proofs.PositionInverse
import EditorBridge.Registry
import EditorBridge.Server
import EditorBridge.Session
import EditorBridge.Table
import EditorBridge.Text.Blank
import EditorBridge.Text.Decimal
import EditorBridge.Text.DecimalDigit
import EditorBridge.Text.Hex
import EditorBridge.Text.Lines
import EditorBridge.Text.Printable
import EditorBridge.Text.Quoted
import EditorBridge.Text.Split
import EditorBridge.Text.Utf8
import EditorBridge.Tree.Attr
import EditorBridge.Tree.Graph
import EditorBridge.Tree.Scope
import EditorBridge.Tree.Walk
import EditorBridge.Uri
import EditorBridge.Uri.Authority
import EditorBridge.Uri.Percent
import EditorBridge.Visited
import EditorBridge.Proofs.Messages
import EditorBridge.Proofs.Ledger
import EditorBridge.Proofs.Publication
import EditorBridge.Proofs.OrdinaryFaults
import EditorBridge.Proofs.Responses
import EditorBridge.Proofs.Confinement
import EditorBridge.Proofs.SearchRoot
import EditorBridge.Proofs.Isolation
import EditorBridge.Proofs.Decimal
import EditorBridge.Proofs.JsonRoundTrip
import EditorBridge.Proofs.Utf8
import EditorBridge.Proofs.Framing
import EditorBridge.Proofs.SentMessages
import EditorBridge.Proofs.Dispatch
import EditorBridge.Proofs.Outcomes
import EditorBridge.Proofs.Ranges
import EditorBridge.Proofs.Reading
import EditorBridge.Proofs.ReportPlaces
import EditorBridge.Proofs.OutlineRanges
import EditorBridge.Proofs.PositionErrors
import EditorBridge.Proofs.Steps
import EditorBridge.Proofs.Settings
import EditorBridge.Proofs.ServerLoop
import EditorBridge.Proofs.Queries
import EditorBridge.Proofs.ReportGrammar
import EditorBridge.Proofs.RenderedReports
import EditorBridge.Proofs.HoverMeaning
import EditorBridge.Proofs.Walks
import EditorBridge.Proofs.Innermost
import EditorBridge.Proofs.OutlineSelections
import EditorBridge.Proofs.TokenAnswers
import EditorBridge.Proofs.CursorNames
import EditorBridge.Proofs.CompletionTrials
import EditorBridge.Proofs.DiagnosticRanges
import EditorBridge.Proofs.DocumentSync
import EditorBridge.Proofs.PositionMeaning
import EditorBridge.Proofs.OutsidePositions
import EditorBridge.Proofs.DefinitionLinks
import EditorBridge.Proofs.ScopeNames
import EditorBridge.Proofs.AncestorSearch
import EditorBridge.Proofs.ReceiverMembers
import EditorBridge.Proofs.ReportSplicing
import EditorBridge.Proofs.PercentEncoding
import EditorBridge.Proofs.PathUris
import EditorBridge.Proofs.LongestTokens
import EditorBridge.Proofs.HoverSearch
import EditorBridge.Proofs.WalkOrder
