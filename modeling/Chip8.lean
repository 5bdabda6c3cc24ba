import Chip8.Main
import Chip8.Proofs.Batching
import Chip8.Proofs.Isolation
import Chip8.Proofs.KeyCapture
import Chip8.Proofs.OnShow
import Chip8.Proofs.Targets
import Chip8.Proofs.TicksInFlight
import Chip8.Proofs.TimerAccuracy
import Chip8.Proofs.WholeRuns
import Chip8.Proofs.DeadState
import Chip8.Proofs.Calls
import Chip8.Proofs.ClockRate
import Chip8.Proofs.Policies
import Chip8.Proofs.RandomWords
import Chip8.Proofs.PhaseOrder
import Chip8.Proofs.CycleLimits
import Chip8.Proofs.Rest
import Chip8.Proofs.Failures
import Chip8.Proofs.Painting
import Chip8.Proofs.Reports
import Chip8.Proofs.Playback
import Chip8.Proofs.Drawing
import Chip8.Proofs.DueTicks
import Chip8.Proofs.TickOrder
import Chip8.Proofs.ArithmeticWords
import Chip8.Proofs.NextInstruction
import Chip8.Proofs.Transfers
import Chip8.Proofs.MemoryHistory
import Chip8.Proofs.Bounds
import Chip8.Proofs.GuardedMachine
import Chip8.Proofs.Durations
