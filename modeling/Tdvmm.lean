import Tdvmm.Lib.Eff
import Tdvmm.Lib.Trace
import Tdvmm.Lib.Utf8
import Tdvmm.Lib.Incremental
import Tdvmm.Proto.Egress
import Tdvmm.Proto.Control
import Tdvmm.Proto.Codec
import Tdvmm.Egress.Backend
import Tdvmm.Egress.Stream
import Tdvmm.Egress.Intake
import Tdvmm.Egress.Refine
import Tdvmm.Egress.Framing
import Tdvmm.Egress.Bounds
import Tdvmm.Egress.Wake
import Tdvmm.Egress.Sockets
import Tdvmm.Egress.Upstream
import Tdvmm.Egress.Downstream
import Tdvmm.Vmm.Vtsc
import Tdvmm.Vmm.Events
import Tdvmm.Vmm.Lapic
import Tdvmm.Vmm.Ioapic
import Tdvmm.Vmm.Channel
import Tdvmm.Vmm.Outbox
import Tdvmm.Vmm.Park
import Tdvmm.Vmm.Run
import Tdvmm.Vmm.Turns
import Tdvmm.Vmm.Gate
import Tdvmm.Vmm.Budget
import Tdvmm.Vmm.Jump
import Tdvmm.Forwarder.Socks
import Tdvmm.Forwarder.Connection
import Tdvmm.Forwarder.Moves
import Tdvmm.Forwarder.System
import Tdvmm.Forwarder.Link
import Tdvmm.Forwarder.Isolation
import Tdvmm.Forwarder.Freshness
import Tdvmm.Forwarder.Window
import Tdvmm.Forwarder.Registry
import Tdvmm.Forwarder.Demux
import Tdvmm.Vmm.Delivery
import Tdvmm.Vmm.Entry
import Tdvmm.Vmm.Priority
import Tdvmm.Vmm.Doorbell
import Tdvmm.Vmm.Equivalence
import Tdvmm.Vmm.Devices
import Tdvmm.Vmm.Capture
import Tdvmm.Guest.Shell
import Tdvmm.Guest.Dispatch
import Tdvmm.Guest.Bridge
import Tdvmm.Guest.Verdict
import Tdvmm.Vmm.Driver
import Tdvmm.Guest.Integrity
import Tdvmm.Guest.Partition
import Tdvmm.Guest.Coverage
import Tdvmm.Sdk.Client
import Tdvmm.Compose.Validate
import Tdvmm.Compose.Lock
import Tdvmm.Compose.Merge
import Tdvmm.Compose.Fidelity
import Tdvmm.Lib.Fs
import Tdvmm.Build.Tree
import Tdvmm.Build.Binds
import Tdvmm.Build.TreeHash
import Tdvmm.Build.Cache
import Tdvmm.Compose.Pins
import Tdvmm.Compose.Transform
import Tdvmm.Build.Copy
import Tdvmm.Build.Walk
import Tdvmm.Build.Stack
import Tdvmm.Cpio.Newc
import Tdvmm.Cpio.Collect
import Tdvmm.Cpio.Emit
import Tdvmm.Cpio.Content
import Tdvmm.Artifact.Tar
import Tdvmm.Artifact.Read
import Tdvmm.Artifact.Agree
import Tdvmm.Artifact.Builder
import Tdvmm.Lib.Range
import Tdvmm.Vmm.Boot
import Tdvmm.Egress.Solicit
import Tdvmm.Egress.Stall
import Tdvmm.Egress.Flow
import Tdvmm.Egress.Flood
import Tdvmm.Lib.Scale
import Tdvmm.Vmm.Timer
import Tdvmm.Vmm.Count
import Tdvmm.Lib.Heap
import Tdvmm.Vmm.Queue
import Tdvmm.Lib.Spool
import Tdvmm.Vmm.Framing
import Tdvmm.Vmm.RoundTrip
import Tdvmm.Guest.Pipeline
import Tdvmm.Build.Calendar
import Tdvmm.Guest.Connections
import Tdvmm.Vmm.Pit
import Tdvmm.Forwarder.Handshake
import Tdvmm.Vmm.Skip
import Tdvmm.Forwarder.Order
