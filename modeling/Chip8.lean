import Chip8.Instruction.Listing
import Chip8.Main
import Chip8.Tone
import Chip8.Proofs.CallReturn
import Chip8.Proofs.HeldKeys
import Chip8.Proofs.ProgramCounter
import Chip8.Proofs.ShownPicture
import Chip8.Proofs.StepFault
import Chip8.Proofs.TableInterpreter
import Chip8.Proofs.TotalReset
import Chip8.Proofs.Assembly
import Chip8.Proofs.Standstill
import Chip8.Proofs.KeyWait
import Chip8.Proofs.Halted
import Chip8.Proofs.TraceConsistency
import Chip8.Proofs.Independence
import Chip8.Proofs.Stimuli
import Chip8.Proofs.TimerCount
import Chip8.Proofs.RandomStream
import Chip8.Proofs.SessionEnd
import Chip8.Proofs.Pause
import Chip8.Proofs.GuardedRun
import Chip8.Proofs.SpriteHits
import Chip8.Proofs.Compositing
import Chip8.Proofs.DrawInstruction
import Chip8.Proofs.FlagArithmetic
import Chip8.Proofs.NextAddress
import Chip8.Proofs.Footprint
import Chip8.Proofs.PartialTransfer
import Chip8.Proofs.StoredRegisters
import Chip8.Proofs.FrameBudget
import Chip8.Proofs.KeyTransitions
import Chip8.Proofs.RepeatedQuestion
import Chip8.Proofs.DigitDrawing
import Chip8.Proofs.ReadPaths
import Chip8.Proofs.BoundedStack
import Chip8.Proofs.ColorGrammar
import Chip8.Proofs.FaultReport
import Chip8.Proofs.ListingText
import Chip8.Proofs.TonePhase
