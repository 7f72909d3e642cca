import Patchbay.Bits
import Patchbay.Rate
import Patchbay.Bus
import Patchbay.Text.Blank
import Patchbay.Text.Lines
import Patchbay.Text.Numeral
import Patchbay.Json.Token
import Patchbay.Json.Value
import Patchbay.Json.Pretty
import Patchbay.Text.Split
import Patchbay.Disk.Path
import Patchbay.Disk
import Patchbay.Disk.FileTree
import Patchbay.Catalog
import Patchbay.Catalog.Reading
import Patchbay.Catalog.Builtin
import Patchbay.Diagnostic
import Patchbay.Patch.Code
import Patchbay.Patch
import Patchbay.Template.Directive
import Patchbay.Template
import Patchbay.Template.Validation
import Patchbay.Event
import Patchbay.Container.Fault
import Patchbay.Container.Framing
import Patchbay.Container.Record
import Patchbay.Container.Decoding
import Patchbay.Container.Builder
import Patchbay.Routing.Nets
import Patchbay.Routing.Jack
import Patchbay.Routing.Link
import Patchbay.Routing
import Patchbay.Template.Source
import Patchbay.Template.Set
import Patchbay.Document
import Patchbay.Sha256
import Patchbay.Conversion
import Patchbay.Report.Table
import Patchbay.Report.PatchTables
import Patchbay.Report.TemplateCheck
import Patchbay.Patch.Json
import Patchbay.Command.Arguments
import Patchbay.Command.Run
import Patchbay.Main
import Patchbay.Proofs.Nets
import Patchbay.Proofs.Wiring
import Patchbay.Proofs.CableChecks
import Patchbay.Proofs.Numbering
import Patchbay.Proofs.NetBuses
import Patchbay.Proofs.SignalFlow
import Patchbay.Proofs.BitStrings
import Patchbay.Proofs.Reading
import Patchbay.Proofs.Cutting
import Patchbay.Proofs.RoundTrip
import Patchbay.Proofs.Layout
import Patchbay.Proofs.Spelling
import Patchbay.Proofs.Acceptance
import Patchbay.Proofs.Compilation
import Patchbay.Proofs.SilentCompile
import Patchbay.Proofs.BusSpace
import Patchbay.Proofs.Gates
import Patchbay.Proofs.Rearrangement
import Patchbay.Proofs.Truncation
import Patchbay.Proofs.PassedOver
import Patchbay.Proofs.Positions
import Patchbay.Proofs.BitStreams
import Patchbay.Proofs.FaultReports
import Patchbay.Proofs.DecodedPatch
import Patchbay.Proofs.Reencoding
import Patchbay.Proofs.Succession
import Patchbay.Proofs.Relocation
import Patchbay.Proofs.ListOrder
import Patchbay.Proofs.Resolution
import Patchbay.Proofs.TemplateChecks
import Patchbay.Proofs.Whereabouts
import Patchbay.Proofs.ReportedPaths
import Patchbay.Proofs.Forest
import Patchbay.Proofs.UnionFind
import Patchbay.Proofs.GuardedRouting
import Patchbay.Proofs.CounterWidth
import Patchbay.Proofs.CallLines
import Patchbay.Proofs.TemplateText
import Patchbay.Proofs.Mismatches
import Patchbay.Proofs.TypeAccounts
import Patchbay.Proofs.DirectiveTokens
import Patchbay.Proofs.CatalogMap
import Patchbay.Proofs.TableColumns
import Patchbay.Proofs.JsonTexts
import Patchbay.Proofs.JsonExactness
import Patchbay.Proofs.JsonPrinting
import Patchbay.Proofs.CatalogTexts
