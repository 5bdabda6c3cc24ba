import Chip8.Countdown
import Chip8.Keypad
import Chip8.Memory
import Chip8.Registers
import Chip8.Screen

/-! # The state of a machine

Everything a loaded program can see or change, together with what the machine is doing. -/
namespace Chip8

inductive Mode
  | stopped
  | running
  | awaitingKey
  | halted
  deriving DecidableEq

structure State where
  memory : Memory
  registers : Registers
  screen : Screen
  keypad : Keypad
  timers : Timers
  mode : Mode
  /-- Whether the screen was drawn on since the last batch of instructions began. -/
  drawFlag : Bool
  deriving DecidableEq

namespace State

def initial : State := ⟨.initial, .initial, .blank, .idle, .idle, .stopped, false⟩

instance : Inhabited State := ⟨initial⟩

/-- The byte in register `x`. -/
def get (s : State) (x : Register) : UInt8 := s.registers.get x

end State
end Chip8
