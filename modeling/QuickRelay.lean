import QuickRelay.Lib.Outcome
import QuickRelay.Lib.Octets
import QuickRelay.Lib.Tlv
import QuickRelay.Lib.Buffer
import QuickRelay.Lib.Text
import QuickRelay.Lib.Runs
import QuickRelay.Lib.Assoc
import QuickRelay.Lib.Interleave
import QuickRelay.Lib.Recency
import QuickRelay.Lib.Memo
import QuickRelay.Lib.Simulation
import QuickRelay.Lib.PrefixCode
import QuickRelay.Protocol.Error
import QuickRelay.Protocol.MessageType
import QuickRelay.Protocol.Address
import QuickRelay.Protocol.Attribute
import QuickRelay.Protocol.Value
import QuickRelay.Protocol.ValueCodec
import QuickRelay.Protocol.Integrity
import QuickRelay.Protocol.Message
import QuickRelay.Protocol.Grammar
import QuickRelay.Protocol.Acceptance
import QuickRelay.Protocol.Trailers
import QuickRelay.Protocol.Offsets
import QuickRelay.Protocol.RoundTrip
import QuickRelay.Protocol.Assembly
import QuickRelay.Protocol.Verification
import QuickRelay.Protocol.Reencoding
import QuickRelay.Protocol.ErrorRange
import QuickRelay.Protocol.FixedLength
import QuickRelay.Protocol.Authentic
import QuickRelay.Protocol.Lookup
import QuickRelay.Protocol.Rejection
import QuickRelay.Protocol.ResponseType
import QuickRelay.Protocol.Rebuild
import QuickRelay.Protocol.Credentials
import QuickRelay.Binding.Ice
import QuickRelay.Binding.Response
import QuickRelay.Binding.Decision
import QuickRelay.Binding.Plan
import QuickRelay.Binding.Change
import QuickRelay.Binding.OtherAddress
import QuickRelay.Transport.Framing
import QuickRelay.Transport.ConnMgr
import QuickRelay.Transport.Worker
import QuickRelay.Transport.Reassembly
import QuickRelay.Transport.ReadWindow
import QuickRelay.Transport.Connections
import QuickRelay.Transport.EventLoop
import QuickRelay.Transport.Effects
import QuickRelay.Transport.Lifecycle
import QuickRelay.Transport.Kernel
import QuickRelay.Transport.Phases
import QuickRelay.Transport.Edges
import QuickRelay.Transport.Intake
import QuickRelay.Transport.FrameStream
import QuickRelay.Transport.WriteBuffer
import QuickRelay.Transport.Timers
import QuickRelay.Transport.Reclaim
import QuickRelay.Transport.Accepting
import QuickRelay.Transport.EncodeAll
import QuickRelay.Transport.Work
import QuickRelay.Transport.PeerStream
import QuickRelay.Transport.Outlets
import QuickRelay.Server.Chain
import QuickRelay.Server.Cache
import QuickRelay.Server.Handler
import QuickRelay.Server.Reply
import QuickRelay.Server.Steps
import QuickRelay.Server.Comprehension
import QuickRelay.Server.Provenance
import QuickRelay.Server.Mapped
import QuickRelay.Server.Amplification
import QuickRelay.Server.Replay
import QuickRelay.Server.Serving
import QuickRelay.Server.ReplyOrder
import QuickRelay.Server.Stranded
import QuickRelay.Server.HalfClose
import QuickRelay.Server.Source
import QuickRelay.Server.Startup
import QuickRelay.Server.Answerable
import QuickRelay.Server.Transports
import QuickRelay.Server.CacheHistory
import QuickRelay.Server.Drain
import QuickRelay.Server.OtherAddress
import QuickRelay.Server.Reported
import QuickRelay.Server.Filing
import QuickRelay.Server.Sender
import QuickRelay.Server.Calls
import QuickRelay.Server.Outgoing
import QuickRelay.Server.Delivery
import QuickRelay.Server.Footprint
import QuickRelay.Server.Network
import QuickRelay.Server.Stateless
import QuickRelay.Server.Process
import QuickRelay.Server.Tick
import QuickRelay.Server.Latch
import QuickRelay.Server.Shutdown
import QuickRelay.Server.Wakeup
import QuickRelay.Server.Ledger
import QuickRelay.Server.Conversation
import QuickRelay.Server.Contents

