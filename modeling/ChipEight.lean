import ChipEight.Instruction.Outline
import ChipEight.Main
import ChipEight.Proofs.Instruction.Effect
import ChipEight.Proofs.Instruction.ReadSet
import ChipEight.Proofs.Instruction.Dispute
import ChipEight.Proofs.Machine.Turn
import ChipEight.Proofs.Machine.Atomicity
import ChipEight.Proofs.Machine.Batch
import ChipEight.Proofs.Core.Range
import ChipEight.Proofs.Machine.Run
import ChipEight.Proofs.Core.Access
import ChipEight.Proofs.Machine.Safety
import ChipEight.Proofs.Core.Calls
import ChipEight.Proofs.Machine.Calls
import ChipEight.Proofs.Instruction.Form
import ChipEight.Proofs.Machine.Fault
import ChipEight.Proofs.Machine.History
import ChipEight.Proofs.Machine.Redraw
import ChipEight.Proofs.Machine.Likeness
import ChipEight.Proofs.Machine.Writes
import ChipEight.Proofs.Machine.FrameSize
import ChipEight.Proofs.Machine.Coupling
import ChipEight.Proofs.Machine.Noninterference
import ChipEight.Proofs.Machine.Equipment
import ChipEight.Proofs.Machine.Dialects
import ChipEight.Proofs.Machine.RandomWords
import ChipEight.Proofs.Machine.Timers
import ChipEight.Proofs.Machine.Host
import ChipEight.Proofs.Machine.Intents
import ChipEight.Proofs.Machine.Replay
import ChipEight.Proofs.Player.Output
import ChipEight.Proofs.Core.Drawing
import ChipEight.Proofs.Machine.Loading
import ChipEight.Proofs.Machine.Event
import ChipEight.Proofs.Machine.Log
import ChipEight.Proofs.Session.Beeper
import ChipEight.Proofs.Core.Arithmetic
import ChipEight.Proofs.Core.Overlay
import ChipEight.Proofs.Machine.Flow
import ChipEight.Proofs.Machine.KeyWait
import ChipEight.Proofs.Machine.Recovery
import ChipEight.Proofs.Core.Transfer
import ChipEight.Proofs.Machine.TransferChain
import ChipEight.Proofs.Instruction.Encoding
import ChipEight.Proofs.Machine.Decoding
import ChipEight.Proofs.Text.Numeral
import ChipEight.Proofs.Text.Layout
import ChipEight.Proofs.Instruction.Assembly
import ChipEight.Proofs.Machine.TraceLine
import ChipEight.Proofs.Machine.Tracing
import ChipEight.Proofs.Core.Panel
import ChipEight.Proofs.Machine.Decimal
import ChipEight.Proofs.Screen.Picture
import ChipEight.Proofs.Player.Stream
import ChipEight.Proofs.Keypad.HeldKeys
import ChipEight.Proofs.Machine.Index
import ChipEight.Proofs.CommandLine.Request
import ChipEight.Proofs.CommandLine.RoundTrip
