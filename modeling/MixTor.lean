import MixTor.Lib.Machine
import MixTor.Lib.Channel
import MixTor.Lib.Segments
import MixTor.Lib.Grid
import MixTor.Lib.Keyed
import MixTor.Lib.Pipe
import MixTor.Lib.Tally
import MixTor.Lib.Sweep
import MixTor.Lib.Slices
import MixTor.Lib.Text
import MixTor.Lib.Fields
import MixTor.Lib.Utf8
import MixTor.Lib.Escaped
import MixTor.Lib.Interleaved
import MixTor.Lib.Ranges
import MixTor.Lib.RunningMax
import MixTor.Lib.EmpiricalCdf
import MixTor.Lib.Histogram
import MixTor.Lib.Correlation
import MixTor.Crypto.Primitives
import MixTor.Crypto.FrameCipher
import MixTor.Crypto.MarkedMessage
import MixTor.Crypto.MarkedVerdict
import MixTor.Crypto.Handshake
import MixTor.Crypto.KeyHex
import MixTor.Crypto.LoadIdentity
import MixTor.Shaping.Basic
import MixTor.Shaping.Double
import MixTor.Shaping.TimingCorrelator
import MixTor.Shaping.ShapedSession
import MixTor.Shaping.DrainReady
import MixTor.Shaping.SlotSchedule
import MixTor.Shaping.ClockStream
import MixTor.Shaping.Burst
import MixTor.Shaping.ClumpingPool
import MixTor.Shaping.OptimalPadder
import MixTor.Shaping.Spectral
import MixTor.Transport.Cell
import MixTor.Transport.Tail
import MixTor.Transport.ServiceFlow
import MixTor.Transport.CoverSchedule
import MixTor.Transport.FlowAccounting
import MixTor.Transport.InOrderDelivery
import MixTor.Transport.SealedFrames
import MixTor.Transport.FlowClose
import MixTor.Transport.TailCover
import MixTor.Transport.TailAlignment
import MixTor.Transport.ServerConnection
import MixTor.Transport.ConnectionLimit
import MixTor.Transport.SlotLoop
import MixTor.Transport.EntryGate
import MixTor.Transport.QueueDepth
import MixTor.Transport.RealBytes
import MixTor.Transport.FlowGrowth
import MixTor.Transport.Emitter
import MixTor.Transport.AcceptLoop
import MixTor.Transport.CellCodec
import MixTor.Transport.TailEnv
import MixTor.Transport.Direction
import MixTor.Transport.DirectionClose
import MixTor.Transport.CircuitSession
import MixTor.Shaping.CoverBudget
import MixTor.Shaping.Composer
import MixTor.Shaping.ComposerSound
import MixTor.Shaping.ComposerFrames
import MixTor.Shaping.ComposerRuns
import MixTor.Shaping.BurstSession
import MixTor.Mux.MuxWire
import MixTor.Mux.WireCache
import MixTor.Mux.BridgeRelay
import MixTor.Mux.HoldClose
import MixTor.Mux.Demux
import MixTor.Mux.BackPressure
import MixTor.Mux.StreamStart
import MixTor.Mux.MuxSession
import MixTor.Mux.StreamCleanup
import MixTor.Mux.MuxTraffic
import MixTor.Mux.IdReuse
import MixTor.Mux.Isolation
import MixTor.Mux.HalfClose
import MixTor.Mux.SealedMux
import MixTor.Mux.StreamLimit
import MixTor.Mux.TruncatedWire
import MixTor.Mux.StreamIds
import MixTor.Shaping.SizeBuckets
import MixTor.Shaping.VolumeTarget
import MixTor.Shaping.WindowTotals
import MixTor.Shaping.TimingScheduler
import MixTor.Shaping.ClassThresholds
import MixTor.Shaping.SessionSeeds
import MixTor.Shaping.VerifySession
import MixTor.Shaping.SlotQueue
import MixTor.Shaping.DrainRuns
import MixTor.Lab.SizeAttack
import MixTor.Shaping.SelfTest
import MixTor.Lab.LabLog
import MixTor.Lab.LabLogger
import MixTor.Lab.VolumeAttack
import MixTor.Lab.RankCorrelation
import MixTor.Lab.Pearson
import MixTor.Lab.VerifyChecks
import MixTor.Lab.Adversary
import MixTor.Lab.LogSeries
import MixTor.Lab.ConstantRate
import MixTor.Lab.DelayedCopy
import MixTor.Lab.LinkLog
import MixTor.Socks.ClientArgs
import MixTor.Socks.Accept
