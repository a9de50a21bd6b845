import Relay.Journal
import Relay.Text.Blank
import Relay.Text.Lines
import Relay.Text.Units
import Relay.Text.Numeral
import Relay.Text.Case
import Relay.Text.Quoted
import Relay.Floating.Binary
import Relay.Floating.Shortest
import Relay.Stream.Error
import Relay.Stream.Endian
import Relay.Stream.Reader
import Relay.Stream.Writer
import Relay.Quantity.Vector
import Relay.Quantity.Angle
import Relay.Quantity.Skill
import Relay.Quantity.Appearance
import Relay.Value
import Relay.Layout.Field
import Relay.Layout.Headers
import Relay.Layout.Check
import Relay.Layout.Render
import Relay.Layout.Parse
import Relay.Layout.Chain
import Relay.Layout.Decode
import Relay.Layout.Encode
import Relay.Frame.Header
import Relay.Frame.Assembly
import Relay.Frame.Capture
import Relay.Json.Data
import Relay.Json.Fault
import Relay.Json.Cursor
import Relay.Json.Number
import Relay.Json.Quoted
import Relay.Json.Skip
import Relay.Json.Shape
import Relay.Json.Record
import Relay.Files.Path
import Relay.Files.Tree
import Relay.Protocol.Platform
import Relay.Protocol.Version
import Relay.Protocol.OpcodeTable
import Relay.Protocol.Manifest
import Relay.Protocol.Store
import Relay.Protocol.Resolve
import Relay.Protocol.Load
import Relay.Extension.State
import Relay.Exchange.Form
import Relay.Exchange.Value
import Relay.Exchange.Layout
import Relay.Exchange.Protocol
import Relay.Failure
import Relay.Hook.Program
import Relay.Hook.Table
import Relay.Pipeline
import Relay.Extension.Info
import Relay.Extension.Error
import Relay.Extension.Constraints
import Relay.Extension.Discovery
import Relay.Extension.Routine
import Relay.Extension.Timers
import Relay.Extension.Host
import Relay.Exchange.Hook
import Relay.Exchange.Extension
import Relay.Exchange.Refusal
import Relay.Script.Hook
import Relay.Script.Extension
import Relay.Exchange.Files
import Relay.Toml.Quoted
import Relay.Toml.Scalar
import Relay.Toml.Document
import Relay.Toml.Read
import Relay.Settings
import Relay.Exchange.Settings
import Relay.Inspect.Complaint
import Relay.Inspect.Diagnostic
import Relay.Inspect.Message
import Relay.Inspect.Definition
import Relay.Inspect.Extensions
import Relay.Inspect.Arguments
import Relay.Inspect.Command
import Relay.Inspect.Run
import Relay.Main
import Relay.Proofs.Text.Units
import Relay.Proofs.Floating.Widen
import Relay.Proofs.Quantity.Packing
import Relay.Proofs.Quantity.Lossless
import Relay.Proofs.Stream.Draft
import Relay.Proofs.Stream.Carried
import Relay.Proofs.Stream.Items
import Relay.Proofs.Layout.Steps
import Relay.Proofs.Layout.Scalar
import Relay.Proofs.Layout.Content
import Relay.Proofs.Layout.Links
import Relay.Proofs.Layout.Names
import Relay.Proofs.Layout.Addressed
import Relay.Proofs.Layout.Fields
import Relay.Proofs.Layout.InOrder
import Relay.Proofs.Layout.Laid
import Relay.Proofs.Layout.Slots
import Relay.Proofs.Layout.Passage
import Relay.Proofs.Layout.Drafted
import Relay.Proofs.Layout.Levels
import Relay.Proofs.Layout.RoundTrip
import Relay.Proofs.Stream.Finds
import Relay.Proofs.Layout.Gathered
import Relay.Proofs.Layout.Received
import Relay.Proofs.Layout.Writable
import Relay.Proofs.Layout.Mirrored
import Relay.Proofs.Layout.Recoded
import Relay.Proofs.Layout.Front
import Relay.Proofs.Stream.Yields
import Relay.Proofs.Layout.Trails
import Relay.Proofs.Layout.Followed
import Relay.Proofs.Layout.Chained
import Relay.Proofs.Layout.Decoded
import Relay.Proofs.Layout.Crowded
import Relay.Proofs.Layout.Clipped
import Relay.Proofs.Layout.Adrift
import Relay.Proofs.Layout.Sheltered
import Relay.Proofs.Layout.Wholes
import Relay.Proofs.Layout.Extent
import Relay.Proofs.Layout.Parts
import Relay.Proofs.Layout.Figures
import Relay.Proofs.Hook.Schedule
import Relay.Proofs.Hook.Changed
import Relay.Proofs.Pipeline.Follows
import Relay.Proofs.Pipeline.Handling
import Relay.Proofs.Pipeline.Outbox
import Relay.Proofs.Pipeline.Nesting
import Relay.Proofs.Pipeline.History
import Relay.Proofs.Protocol.Rows
import Relay.Proofs.Protocol.Paired
import Relay.Proofs.Protocol.Overlaid
import Relay.Proofs.Protocol.Kept
import Relay.Proofs.Protocol.Alike
import Relay.Proofs.Protocol.Answered
import Relay.Proofs.Protocol.Precedence
import Relay.Proofs.Protocol.Purged
import Relay.Proofs.Pipeline.Afresh
import Relay.Proofs.Pipeline.Watched
import Relay.Proofs.Frame.Conserved
import Relay.Proofs.Frame.Cuts
import Relay.Proofs.Frame.Captured
import Relay.Proofs.Text.Case
import Relay.Proofs.Extension.Deeds
import Relay.Proofs.Extension.Calls
import Relay.Proofs.Extension.Housed
import Relay.Proofs.Extension.Parted
import Relay.Proofs.Pipeline.Removals
import Relay.Proofs.Pipeline.Sighted
import Relay.Proofs.Pipeline.Visited
import Relay.Proofs.Pipeline.Verdicts
import Relay.Proofs.Pipeline.Called
import Relay.Proofs.Pipeline.Apart
import Relay.Proofs.Pipeline.Isolated
import Relay.Proofs.Pipeline.Observed
import Relay.Proofs.Pipeline.Once
import Relay.Proofs.Pipeline.Registered
import Relay.Proofs.Pipeline.Heeded
import Relay.Proofs.Extension.Removed
import Relay.Proofs.Extension.Settled
import Relay.Proofs.Json.Gives
import Relay.Proofs.Extension.Discovered
import Relay.Proofs.Extension.Ordered
import Relay.Proofs.Extension.Tended
import Relay.Proofs.Extension.Cleared
import Relay.Proofs.Extension.Punctual
import Relay.Proofs.Layout.Printed
import Relay.Proofs.Layout.Rebuilt
import Relay.Proofs.Layout.ReadBack
import Relay.Proofs.Layout.Placed
import Relay.Proofs.Layout.Outline
import Relay.Proofs.Layout.Skipped
import Relay.Proofs.Stream.Halted
import Relay.Proofs.Stream.Patched
import Relay.Proofs.Layout.Rounds
import Relay.Proofs.Layout.Keyed
