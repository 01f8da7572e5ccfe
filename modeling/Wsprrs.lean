import Wsprrs.Foundation.BigEndian
import Wsprrs.Foundation.TagLengthValue
import Wsprrs.Foundation.Overlay
import Wsprrs.Foundation.EventMachine
import Wsprrs.Foundation.FallibleMachine
import Wsprrs.Foundation.LinkedMachines
import Wsprrs.Foundation.EndlessRun
import Wsprrs.Foundation.LossyQueue
import Wsprrs.Foundation.DirStore
import Wsprrs.Foundation.Text
import Wsprrs.Foundation.Numeral
import Wsprrs.Foundation.Radix
import Wsprrs.Foundation.IpAddress
import Wsprrs.Foundation.Loader
import Wsprrs.Foundation.InodeStore
import Wsprrs.Foundation.Riff
import Wsprrs.Foundation.Checked
import Wsprrs.Error
import Wsprrs.Clock
import Wsprrs.Config
import Wsprrs.Config.Environment
import Wsprrs.Status.Packet
import Wsprrs.Status.Walk
import Wsprrs.Status.Encoding
import Wsprrs.Status.RoundTrip
import Wsprrs.Status.Peek
import Wsprrs.Status.Frame
import Wsprrs.Status.Readiness
import Wsprrs.Status.Blocks
import Wsprrs.Rtp.Packet
import Wsprrs.Rtp.Format
import Wsprrs.Buffer.AudioWindow
import Wsprrs.Buffer.Ingest
import Wsprrs.Buffer.Epoch
import Wsprrs.Buffer.Placement
import Wsprrs.Buffer.Representation
import Wsprrs.Buffer.WallClock
import Wsprrs.Buffer.Gaps
import Wsprrs.BufferTask.Model
import Wsprrs.BufferTask.Channel
import Wsprrs.BufferTask.Conservation
import Wsprrs.BufferTask.Isolation
import Wsprrs.BufferTask.Cycle
import Wsprrs.BufferTask.Timely
import Wsprrs.BufferTask.Provenance
import Wsprrs.BufferTask.Reports
import Wsprrs.BufferTask.Confinement
import Wsprrs.BufferTask.Coverage
import Wsprrs.BufferTask.LateStart
import Wsprrs.BufferTask.Anchor
import Wsprrs.BufferTask.Tuning
import Wsprrs.BufferTask.ByteOrder
import Wsprrs.BufferTask.Padding
import Wsprrs.Spot
import Wsprrs.Decode.AllWspr
import Wsprrs.Decode.Grid
import Wsprrs.Decode.Records
import Wsprrs.Decode.Wisdom
import Wsprrs.Decode.Wav
import Wsprrs.DecodeTask.Model
import Wsprrs.DecodeTask.Delivery
import Wsprrs.DecodeTask.Serial
import Wsprrs.Shutdown.Model
import Wsprrs.Shutdown.Signal
import Wsprrs.Shutdown.Exits
import Wsprrs.Shutdown.Cascade
import Wsprrs.Totality
import Wsprrs.Pipeline.Model
import Wsprrs.Pipeline.Flow
import Wsprrs.Pipeline.Progress
import Wsprrs.Pipeline.Stamp
import Wsprrs.Pipeline.Stall
import Wsprrs.Decode.Workspace
import Wsprrs.Decode.Isolation
import Wsprrs.System.Model
import Wsprrs.System.Backlog
import Wsprrs.System.Provenance
import Wsprrs.System.Reports
import Wsprrs.System.Progress
import Wsprrs.Program.Model
import Wsprrs.Program.EndToEnd
import Wsprrs.Program.Rest
