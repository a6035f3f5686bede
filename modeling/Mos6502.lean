import Mos6502.Main
import Mos6502.Proofs.AccessOrder
import Mos6502.Proofs.AddressSpace
import Mos6502.Proofs.FailedRestore
import Mos6502.Proofs.FaultConditions
import Mos6502.Proofs.FramingBits
import Mos6502.Proofs.HexNumbers
import Mos6502.Proofs.LogOutput
import Mos6502.Proofs.LongArithmetic
import Mos6502.Proofs.LongShifts
import Mos6502.Proofs.OperandAgreement
import Mos6502.Proofs.OperandSpan
import Mos6502.Proofs.OwnBytes
import Mos6502.Proofs.RecentHistory
import Mos6502.Proofs.Refinement
import Mos6502.Proofs.Registry
import Mos6502.Proofs.Routines
import Mos6502.Proofs.SerialPort
import Mos6502.Proofs.SplitRuns
import Mos6502.Proofs.StackCalls
import Mos6502.Proofs.StackDump
import Mos6502.Proofs.StoreBounds
import Mos6502.Proofs.Unambiguous
import Mos6502.Proofs.Verdict
import Mos6502.Proofs.VisitedListing
import Mos6502.Proofs.WrittenStates
import Mos6502.Runner.Directory
import Mos6502.Snapshot.Board
import Mos6502.Snapshot.Registers
