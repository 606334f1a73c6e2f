import Emu8080.Config.Blueprint
import Emu8080.Config.Load
import Emu8080.Proofs.Arithmetic
import Emu8080.Proofs.BreakpointSet
import Emu8080.Proofs.Build
import Emu8080.Proofs.Bus
import Emu8080.Proofs.ByteStore
import Emu8080.Proofs.Checked
import Emu8080.Proofs.Chip
import Emu8080.Proofs.Codec
import Emu8080.Proofs.ColonLine
import Emu8080.Proofs.Composed
import Emu8080.Proofs.Condition
import Emu8080.Proofs.Corruption
import Emu8080.Proofs.Coverage
import Emu8080.Proofs.Cycle
import Emu8080.Proofs.Decoding
import Emu8080.Proofs.Document
import Emu8080.Proofs.Effect
import Emu8080.Proofs.Encoding
import Emu8080.Proofs.Equality
import Emu8080.Proofs.Faulting
import Emu8080.Proofs.FlagByte
import Emu8080.Proofs.HexImage
import Emu8080.Proofs.HexRecord
import Emu8080.Proofs.History
import Emu8080.Proofs.Host
import Emu8080.Proofs.Keeping
import Emu8080.Proofs.Lines
import Emu8080.Proofs.Loading
import Emu8080.Proofs.Lockstep
import Emu8080.Proofs.LongSum
import Emu8080.Proofs.PassOver
import Emu8080.Proofs.Placement
import Emu8080.Proofs.Policy
import Emu8080.Proofs.Primitive
import Emu8080.Proofs.Produced
import Emu8080.Proofs.Remembering
import Emu8080.Proofs.Rendering
import Emu8080.Proofs.Replay
import Emu8080.Proofs.Resume
import Emu8080.Proofs.Reverse
import Emu8080.Proofs.Round
import Emu8080.Proofs.Run
import Emu8080.Proofs.Scalar
import Emu8080.Proofs.Sequence
import Emu8080.Proofs.Showable
import Emu8080.Proofs.Spelling
import Emu8080.Proofs.Step
import Emu8080.Proofs.Steps
import Emu8080.Proofs.Stop
import Emu8080.Proofs.Sum
import Emu8080.Proofs.Trajectory
import Emu8080.Proofs.Trap
import Emu8080.Proofs.Utf8
import Emu8080.Proofs.Verdict
import Emu8080.Proofs.View
import Emu8080.Proofs.WatchList
import Emu8080.Session
import Emu8080.System
