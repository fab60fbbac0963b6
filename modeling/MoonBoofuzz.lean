import MoonBoofuzz.Data.Eval
import MoonBoofuzz.Data.Text
import MoonBoofuzz.Data.Digits
import MoonBoofuzz.Data.Machine
import MoonBoofuzz.Data.Walker
import MoonBoofuzz.Data.Worklist
import MoonBoofuzz.Data.Tuples
import MoonBoofuzz.Data.Slots
import MoonBoofuzz.Data.Json
import MoonBoofuzz.Data.Act
import MoonBoofuzz.Data.Search
import MoonBoofuzz.Model.Field
import MoonBoofuzz.Model.Integer
import MoonBoofuzz.Model.Digest
import MoonBoofuzz.Model.Node
import MoonBoofuzz.Model.Request
import MoonBoofuzz.Model.Measure
import MoonBoofuzz.Model.Render
import MoonBoofuzz.Model.Whole
import MoonBoofuzz.Model.Compile
import MoonBoofuzz.Model.Cycles
import MoonBoofuzz.Model.Still
import MoonBoofuzz.Model.Compiled
import MoonBoofuzz.Model.Flat
import MoonBoofuzz.Model.Bare
import MoonBoofuzz.Model.Lookup
import MoonBoofuzz.Model.Layout
import MoonBoofuzz.Model.Preorder
import MoonBoofuzz.Size.Agreement
import MoonBoofuzz.Size.Wire
import MoonBoofuzz.Size.Counts
import MoonBoofuzz.Checksum.Zeroing
import MoonBoofuzz.Termination.Stages
import MoonBoofuzz.Termination.Reentry
import MoonBoofuzz.Termination.Render
import MoonBoofuzz.Termination.Compile
import MoonBoofuzz.Mutation.Stream
import MoonBoofuzz.Mutation.Sequential
import MoonBoofuzz.Mutation.Calls
import MoonBoofuzz.Mutation.Resume
import MoonBoofuzz.Mutation.Units
import MoonBoofuzz.Mutation.Combinatorial
import MoonBoofuzz.Mutation.Emission
import MoonBoofuzz.Mutation.Chains
import MoonBoofuzz.Mutation.Replay
import MoonBoofuzz.Mutation.Positions
import MoonBoofuzz.Mutation.Static
import MoonBoofuzz.Mutation.Sweep
import MoonBoofuzz.Mutation.Flat
import MoonBoofuzz.Mutation.Finite
import MoonBoofuzz.Mutation.Depths
import MoonBoofuzz.Mutation.Prefix
import MoonBoofuzz.Mutation.Unique
import MoonBoofuzz.Mutation.Identity
import MoonBoofuzz.Mutation.Contract
import MoonBoofuzz.Mutation.Bare
import MoonBoofuzz.Mutation.Generators
import MoonBoofuzz.Session.Graph
import MoonBoofuzz.Session.Routes
import MoonBoofuzz.Session.Paths
import MoonBoofuzz.Session.Calls
import MoonBoofuzz.Definition.Generate
import MoonBoofuzz.Definition.Assemble
import MoonBoofuzz.Definition.Identity
import MoonBoofuzz.Definition.Coverage
import MoonBoofuzz.Definition.CaseIdAt
import MoonBoofuzz.Definition.Placed
import MoonBoofuzz.Records.Record
import MoonBoofuzz.Runner.Channel
import MoonBoofuzz.Runner.Execute
import MoonBoofuzz.Runner.Steps
import MoonBoofuzz.Runner.Reading
import MoonBoofuzz.Runner.Delivered
import MoonBoofuzz.Runner.Overread
import MoonBoofuzz.Runner.Record
import MoonBoofuzz.Runner.Sound
import MoonBoofuzz.Runner.Replay
import MoonBoofuzz.Runner.Run
import MoonBoofuzz.Runner.Tracking
import MoonBoofuzz.Runner.Schedule
import MoonBoofuzz.Runner.Reference
import MoonBoofuzz.Runner.Rounds
import MoonBoofuzz.Runner.Thresholds
import MoonBoofuzz.Runner.Window
import MoonBoofuzz.Runner.Enumerated
import MoonBoofuzz.Runner.Ordinals
import MoonBoofuzz.Runner.Recordable
import MoonBoofuzz.Records.Hex
import MoonBoofuzz.Records.Fields
import MoonBoofuzz.Runner.Endpoint
import MoonBoofuzz.Runner.Config
import MoonBoofuzz.Runner.Launch
import MoonBoofuzz.Runner.Readback
import MoonBoofuzz.Records.Codec
import MoonBoofuzz.Records.Jsonl
import MoonBoofuzz.Data.Blocks
import MoonBoofuzz.Recordio.Throttle
import MoonBoofuzz.Db.Logger
import MoonBoofuzz.Db.Reader
import MoonBoofuzz.Web.Session
import MoonBoofuzz.Results.Throttled
import MoonBoofuzz.Results.Views
import MoonBoofuzz.Data.Rounding
import MoonBoofuzz.Float.Double
import MoonBoofuzz.Float.Pack
import MoonBoofuzz.Runner.Frame
import MoonBoofuzz.Runner.Tally
import MoonBoofuzz.Runner.Redial
import MoonBoofuzz.Runner.Connection
import MoonBoofuzz.Runner.SentBytes
import MoonBoofuzz.Data.InPlace
import MoonBoofuzz.Float.Limbs
import MoonBoofuzz.Data.Decimal
import MoonBoofuzz.Float.Decimal
import MoonBoofuzz.Float.Fixed
import MoonBoofuzz.Data.ShiftRegister
import MoonBoofuzz.Data.Bursts
import MoonBoofuzz.Checksum.Residue
import MoonBoofuzz.Checksum.Bursts
import MoonBoofuzz.Data.EndAround
import MoonBoofuzz.Checksum.Internet
import MoonBoofuzz.Data.BlockRecurrence
import MoonBoofuzz.Random.Mt19937
import MoonBoofuzz.Data.Flagged
import MoonBoofuzz.Data.Grid
import MoonBoofuzz.Fields.Checked
import MoonBoofuzz.Fields.Binary
import MoonBoofuzz.Fields.Windows
import MoonBoofuzz.Data.Utf8
import MoonBoofuzz.Random.Draws
import MoonBoofuzz.Fields.Text
import MoonBoofuzz.Fields.Random
import MoonBoofuzz.Fields.Honest
import MoonBoofuzz.Fields.Float
import MoonBoofuzz.Fields.Limits
import MoonBoofuzz.Fields.Build
import MoonBoofuzz.Fields.Lengths
import MoonBoofuzz.Runner.Combine
import MoonBoofuzz.Runner.EmptyMonitor
import MoonBoofuzz.Results.Retention
import MoonBoofuzz.Data.Attempts
import MoonBoofuzz.Recordio.Failing
import MoonBoofuzz.Results.Raised
import MoonBoofuzz.Db.Failing
import MoonBoofuzz.Http.Message
import MoonBoofuzz.Definition.Nodes
import MoonBoofuzz.Http.Emit
import MoonBoofuzz.Http.Slots
import MoonBoofuzz.Http.Nodes
import MoonBoofuzz.Http.Selected
import MoonBoofuzz.Http.Documents
import MoonBoofuzz.Mutation.Contributions
import MoonBoofuzz.Mutation.Carried
import MoonBoofuzz.Data.Mapped
import MoonBoofuzz.Model.Placed
import MoonBoofuzz.Model.Repeats
import MoonBoofuzz.Model.Listing
import MoonBoofuzz.Data.Accumulate
import MoonBoofuzz.Definition.Decimal
import MoonBoofuzz.Mutation.Singles
import MoonBoofuzz.Definition.PositionOfId
import MoonBoofuzz.Httpd.Limits
import MoonBoofuzz.Web.Options
import MoonBoofuzz.Data.Unicode
import MoonBoofuzz.Web.Form
import MoonBoofuzz.Data.Characters
import MoonBoofuzz.Data.JsonText
import MoonBoofuzz.Cmd.CaseId
import MoonBoofuzz.Data.Quoted
import MoonBoofuzz.Cmd.Csv
import MoonBoofuzz.Cmd.ResumeById
import MoonBoofuzz.Cmd.Capture
import MoonBoofuzz.Http.Rendered
import MoonBoofuzz.Model.Accepts
import MoonBoofuzz.Termination.Accepts
import MoonBoofuzz.Http.Bounds
import MoonBoofuzz.Http.Counted
import MoonBoofuzz.Http.Unselected
import MoonBoofuzz.Http.Chosen
import MoonBoofuzz.Http.Defaults
import MoonBoofuzz.Http.Convert
import MoonBoofuzz.Http.Lines
import MoonBoofuzz.Http.Reproduced
import MoonBoofuzz.Data.Arrivals
import MoonBoofuzz.Data.Pieces
import MoonBoofuzz.Web.Raw
import MoonBoofuzz.Httpd.Request
import MoonBoofuzz.Httpd.Reading
import MoonBoofuzz.Httpd.Heads
import MoonBoofuzz.Httpd.Respond
import MoonBoofuzz.Httpd.Framed
import MoonBoofuzz.Httpd.Echo
import MoonBoofuzz.Cmd.StatefulTarget
import MoonBoofuzz.Data.Triple
import MoonBoofuzz.Process.Monitor
import MoonBoofuzz.Process.Supervised
import MoonBoofuzz.Data.Filed
import MoonBoofuzz.Recordio.FileChannel
import MoonBoofuzz.Recordio.FileRun
