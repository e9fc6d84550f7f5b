import PmWs.Lib.Broadcast
import PmWs.Lib.Eviction
import PmWs.Lib.Fallible
import PmWs.Lib.Framing
import PmWs.Lib.Histogram
import PmWs.Lib.Loads
import PmWs.Lib.MachineInt
import PmWs.Lib.Memory
import PmWs.Lib.Packing
import PmWs.Lib.Pointwise
import PmWs.Lib.Records
import PmWs.Lib.Replay
import PmWs.Lib.Ring
import PmWs.Lib.Runs
import PmWs.Lib.Tables
import PmWs.Lib.Transactions
import PmWs.Lib.Versioned
import PmWs.Numeric
import PmWs.Numeric.Lexeme
import PmWs.Numeric.Value
import PmWs.Numeric.Exact
import PmWs.Shm.Doorbell
import PmWs.Shm.SeqCell
import PmWs.Shm.DirtyRing
import PmWs.Shm.Writer
import PmWs.State
import PmWs.Observation
import PmWs.Book
import PmWs.Book.MutationReplay
import PmWs.Book.InPlace
import PmWs.Book.Discipline
import PmWs.Book.Steps
import PmWs.Book.Complement
import PmWs.Book.Snapshots
import PmWs.Observer
import PmWs.Shm.EventStream
import PmWs.Shm.Layout
import PmWs.Shm.Codec
import PmWs.Shm.EventSlot
import PmWs.Shm.StateSlot
import PmWs.Shm.Segment
import PmWs.Shm.Format
import PmWs.Shm.Sound
import PmWs.Shm.RoundTrip
import PmWs.Shm.Checked
import PmWs.Shm.Directory
import PmWs.Fencing
import PmWs.Shm.Fencing
import PmWs.Dedup
import PmWs.Pool
import PmWs.Limitless
import PmWs.Limitless.AttemptLedger
import PmWs.Limitless.CommandPacer
import PmWs.Limitless.QueueAge
import PmWs.Limitless.NoticeSink
import PmWs.Limitless.NoticeOrder
import PmWs.Limitless.NoticeTraffic
import PmWs.Limitless.Supervisor
import PmWs.Limitless.Books
import PmWs.Limitless.Supervisor.Steps
import PmWs.Limitless.Supervisor.HandBack
import PmWs.Limitless.Supervisor.Reports
import PmWs.Limitless.Supervisor.HiddenLoss
import PmWs.Limitless.Supervisor.Verdict
import PmWs.Limitless.Supervisor.Resubscribe
import PmWs.Pool.History
import PmWs.Pool.Interleaving
import PmWs.Pool.Window
import PmWs.Limitless.Shard.Segment
import PmWs.Limitless.Shard.Market
import PmWs.Limitless.Shard.Set
import PmWs.Limitless.Shard
import PmWs.Limitless.Shard.Visits
import PmWs.Limitless.Shard.Steps
import PmWs.Limitless.Shard.Commands
import PmWs.Limitless.Shard.Calls
import PmWs.Limitless.Shard.Turns
import PmWs.Limitless.Shard.Verdict
import PmWs.Limitless.Shard.Wiring
import PmWs.Limitless.Shard.Sessions
import PmWs.Limitless.Shard.Parts
import PmWs.Limitless.Shard.Calm
import PmWs.Limitless.Shard.Invariants
import PmWs.Limitless.Shard.Fences
import PmWs.Limitless.Shard.Reissue
import PmWs.Limitless.Shard.Outstanding
import PmWs.Limitless.Shard.Tally
import PmWs.Limitless.Shard.Agreement
import PmWs.Limitless.Shard.Shadows
import PmWs.Limitless.Shard.Promotion
import PmWs.Limitless.Shard.Sources
import PmWs.Limitless.Shard.Effects
import PmWs.Limitless.Shard.Streams
import PmWs.Limitless.Shard.Additions
import PmWs.Limitless.Shard.LazyGates
import PmWs.Lib.Scanning
import PmWs.Lib.Utf8
import PmWs.Wire.Lexical
import PmWs.Wire.Grammar
import PmWs.Wire.Exact
import PmWs.Wire.SocketIo
import PmWs.Wire.Packet
import PmWs.Limitless.Decode
import PmWs.Limitless.Levels
