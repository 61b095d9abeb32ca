import SpriteFacts.Association
import SpriteFacts.CommandLine.Options
import SpriteFacts.CommandLine.Reader
import SpriteFacts.Config
import SpriteFacts.Document.Basic
import SpriteFacts.Document.Kind
import SpriteFacts.Document.Settings
import SpriteFacts.Files.Access
import SpriteFacts.Files.Location
import SpriteFacts.Files.Tree
import SpriteFacts.Idiom.Catalog
import SpriteFacts.Idiom.Chain
import SpriteFacts.Json.Print
import SpriteFacts.Json.Value
import SpriteFacts.Main
import SpriteFacts.Metadata.Cut
import SpriteFacts.Metadata.Hint
import SpriteFacts.Metadata.Layer
import SpriteFacts.Metadata.Passes
import SpriteFacts.Metadata.PixelOffset
import SpriteFacts.Metadata.Record
import SpriteFacts.Pattern.Basic
import SpriteFacts.Pattern.Build
import SpriteFacts.Pattern.Search
import SpriteFacts.Proofs.Document.CheckedExtraction
import SpriteFacts.Proofs.Document.Comments
import SpriteFacts.Proofs.Document.Decoded
import SpriteFacts.Proofs.Expression.FrameCycle
import SpriteFacts.Proofs.Expression.Grammar
import SpriteFacts.Proofs.Expression.Unambiguous
import SpriteFacts.Proofs.Files.Growth
import SpriteFacts.Proofs.Files.Unlinked
import SpriteFacts.Proofs.Files.Writing
import SpriteFacts.Proofs.Idiom.Chain
import SpriteFacts.Proofs.Idiom.Grammar
import SpriteFacts.Proofs.Json.Reader
import SpriteFacts.Proofs.Json.RoundTrip
import SpriteFacts.Proofs.Metadata.ConditionalReturn
import SpriteFacts.Proofs.Metadata.CutFields
import SpriteFacts.Proofs.Metadata.CutGrammar
import SpriteFacts.Proofs.Metadata.CutSwitch
import SpriteFacts.Proofs.Metadata.LayerGrammar
import SpriteFacts.Proofs.Metadata.LayerResolution
import SpriteFacts.Proofs.Metadata.PassOrder
import SpriteFacts.Proofs.Metadata.PixelAxes
import SpriteFacts.Proofs.Metadata.ReturnConfined
import SpriteFacts.Proofs.Metadata.ReturnGroups
import SpriteFacts.Proofs.Metadata.ReturnText
import SpriteFacts.Proofs.Metadata.Tallies
import SpriteFacts.Proofs.Pattern.Confined
import SpriteFacts.Proofs.Pattern.Language
import SpriteFacts.Proofs.Pattern.Occurrence
import SpriteFacts.Proofs.Pattern.Preference
import SpriteFacts.Proofs.Pattern.Reading
import SpriteFacts.Proofs.Pattern.Scan
import SpriteFacts.Proofs.Pattern.Splice
import SpriteFacts.Proofs.Pattern.Steady
import SpriteFacts.Proofs.Pattern.Trim
import SpriteFacts.Proofs.Pattern.WordStart
import SpriteFacts.Proofs.Record.Contributions
import SpriteFacts.Proofs.Record.LastWins
import SpriteFacts.Proofs.Report.CasePlaces
import SpriteFacts.Proofs.Run.Written
import SpriteFacts.Proofs.Summary.Counts
import SpriteFacts.Proofs.Summary.Sorted
import SpriteFacts.Proofs.Switch.BalancedBody
import SpriteFacts.Proofs.Switch.BlankedBytes
import SpriteFacts.Proofs.Switch.Blanking
import SpriteFacts.Proofs.Switch.Chains
import SpriteFacts.Proofs.Switch.CheckedBody
import SpriteFacts.Proofs.Switch.CheckedGroups
import SpriteFacts.Proofs.Switch.ClosedCases
import SpriteFacts.Proofs.Switch.CommentFree
import SpriteFacts.Proofs.Switch.Deletion
import SpriteFacts.Proofs.Switch.Execution
import SpriteFacts.Proofs.Switch.FallThrough
import SpriteFacts.Proofs.Switch.FunctionHead
import SpriteFacts.Proofs.Switch.FunctionPlace
import SpriteFacts.Proofs.Switch.GroupsAround
import SpriteFacts.Proofs.Switch.LabelPlaces
import SpriteFacts.Proofs.Switch.LabelText
import SpriteFacts.Proofs.Switch.Labels
import SpriteFacts.Proofs.Switch.LabelsAround
import SpriteFacts.Proofs.Switch.Lines
import SpriteFacts.Proofs.Switch.Locality
import SpriteFacts.Proofs.Switch.MarksAround
import SpriteFacts.Proofs.Switch.NeutralPart
import SpriteFacts.Proofs.Switch.OwnSpanGroups
import SpriteFacts.Proofs.Switch.Spelled
import SpriteFacts.Proofs.Switch.Stations
import SpriteFacts.Proofs.Switch.Tiling
import SpriteFacts.Proofs.Text.Blank
import SpriteFacts.Proofs.Text.LineLookup
import SpriteFacts.Proofs.Text.Numeral
import SpriteFacts.Proofs.Text.Replaced
import SpriteFacts.Proofs.Text.Slice
import SpriteFacts.Proofs.Text.Utf8
import SpriteFacts.Proofs.Variant.AnimatedSwitch
import SpriteFacts.Proofs.Variant.AssignedExpression
import SpriteFacts.Proofs.Variant.AssignedText
import SpriteFacts.Proofs.Variant.AssignmentCode
import SpriteFacts.Proofs.Variant.AssignmentGroup
import SpriteFacts.Proofs.Variant.AssignmentText
import SpriteFacts.Proofs.Variant.CanonicalPulse
import SpriteFacts.Proofs.Variant.CanonicalRemap
import SpriteFacts.Proofs.Variant.CapturedComment
import SpriteFacts.Proofs.Variant.ColorLiteral
import SpriteFacts.Proofs.Variant.ColorRange
import SpriteFacts.Proofs.Variant.CyclePace
import SpriteFacts.Proofs.Variant.GroupMembers
import SpriteFacts.Proofs.Variant.IdentityRemap
import SpriteFacts.Proofs.Variant.PackedAssignments
import SpriteFacts.Proofs.Variant.PackedReport
import SpriteFacts.Proofs.Variant.PulseFormula
import SpriteFacts.Proofs.Variant.PulseStatement
import SpriteFacts.Proofs.Variant.Reassignment
import SpriteFacts.Proofs.Variant.RemapRule
import SpriteFacts.Proofs.Variant.RemapStatement
import SpriteFacts.Proofs.Variant.RemapValue
import SpriteFacts.Proofs.Variant.ReturningSwitch
import SpriteFacts.Proofs.Variant.StaticChannel
import SpriteFacts.Proofs.Variant.StrayTick
import SpriteFacts.Proofs.Variant.TickBody
import SpriteFacts.Proofs.Variant.TickMatch
import SpriteFacts.Proofs.Variant.TickStatement
import SpriteFacts.Record.Roster
import SpriteFacts.Report.Diagnostic
import SpriteFacts.Report.Phase
import SpriteFacts.Run.Basic
import SpriteFacts.Run.Log
import SpriteFacts.Source
import SpriteFacts.Summary.Basic
import SpriteFacts.Summary.Format
import SpriteFacts.Switch.CaseGroup
import SpriteFacts.Switch.CaseLabel
import SpriteFacts.Switch.Comment
import SpriteFacts.Switch.FunctionBody
import SpriteFacts.Text.Blank
import SpriteFacts.Text.Bytes
import SpriteFacts.Text.Encoding
import SpriteFacts.Text.Line
import SpriteFacts.Text.Numeral
import SpriteFacts.Text.Path
import SpriteFacts.Text.Word
import SpriteFacts.Text.WordRanges
import SpriteFacts.Variant.Animation
import SpriteFacts.Variant.Channel
import SpriteFacts.Variant.PackedColor
import SpriteFacts.Variant.Pass
import SpriteFacts.Variant.Pulse
import SpriteFacts.Variant.Record
import SpriteFacts.Variant.Remap
import SpriteFacts.Yaml.Anchor
import SpriteFacts.Yaml.Basic
import SpriteFacts.Yaml.Block
import SpriteFacts.Yaml.Node
import SpriteFacts.Yaml.Parse
import SpriteFacts.Yaml.Place
import SpriteFacts.Yaml.Plain
import SpriteFacts.Yaml.Quoted
import SpriteFacts.Yaml.Scalar
import SpriteFacts.Yaml.Token
