import ChipEight.Frontend.Scripted
import ChipEight.Main
import ChipEight.Proofs.Bounds
import ChipEight.Proofs.CallReturn
import ChipEight.Proofs.Checked.Agreement
import ChipEight.Proofs.Clock
import ChipEight.Proofs.FrameRate
import ChipEight.Proofs.KeyHistory
import ChipEight.Proofs.KeyWait
import ChipEight.Proofs.Outcome
import ChipEight.Proofs.Safety
import ChipEight.Proofs.TickCount
import ChipEight.Proofs.Footprint
import ChipEight.Proofs.Chronicle
import ChipEight.Proofs.Drawing
import ChipEight.Proofs.ScreenHistory
import ChipEight.Proofs.RandomBytes
import ChipEight.Proofs.RandomGenerator
import ChipEight.Proofs.TimerHistory
import ChipEight.Proofs.Lockstep
import ChipEight.Proofs.TickTotal
import ChipEight.Proofs.StraightLine.Meaning
import ChipEight.Proofs.SessionCalls
import ChipEight.Proofs.SessionProtocol
import ChipEight.Proofs.StraightLine.Execution
import ChipEight.Proofs.StackLimit
import ChipEight.Proofs.ShiftFlag
import ChipEight.Proofs.UnreadMemory
import ChipEight.Proofs.KeypadSummary
import ChipEight.Proofs.Digits
import ChipEight.Proofs.PastEnd
import ChipEight.Proofs.SpriteCollision
import ChipEight.Proofs.CommandLine.Choices
import ChipEight.Proofs.CommandLine.RateRange
import ChipEight.Proofs.AccessFaults
import ChipEight.Proofs.StraightLine.Aliasing
import ChipEight.Proofs.BlockTransfer
import ChipEight.Proofs.FrameFailure
import ChipEight.Proofs.FaultMessages
import ChipEight.Proofs.PixelParity
import ChipEight.Proofs.NextAddress
import ChipEight.Proofs.RunLog
