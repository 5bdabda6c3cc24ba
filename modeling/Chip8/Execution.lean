import Chip8.Generator
import Chip8.Instruction
import Chip8.State

/-! # Execution of single instructions

Every instruction executes on the state left by its fetch, in which the program counter is already
past it. A fault leaves no result; what remains then is the state after the fetch. -/
namespace Chip8

def Condition.holds (s : State) : Condition → Bool
  | .byteEqual x b => s.get x == b
  | .byteDiffers x b => s.get x != b
  | .equal x y => s.get x == s.get y
  | .differs x y => s.get x != s.get y
  | .keyDown x => s.keypad.isPressed (.ofByte (s.get x))
  | .keyUp x => !s.keypad.isPressed (.ofByte (s.get x))

/-- The hundreds, tens and units of a byte. -/
def decimalDigits (b : UInt8) : List UInt8 := [b / 100, b / 10 % 10, b % 10]

def glyphAddress (b : UInt8) : UInt16 := (b % 16).toUInt16 * 5

namespace State

def setRegister (s : State) (x : Register) (b : UInt8) : State :=
  { s with registers := s.registers.set x b }

def setIndex (s : State) (w : UInt16) : State :=
  { s with registers := s.registers.setIndex w }

def jump (s : State) (w : UInt16) : State :=
  { s with registers := s.registers.jump w }

/-- The flag register tells afterwards whether a pixel that was lit has been erased. -/
def draw (s : State) (x y : Register) (rows : Nibble) : State :=
  let sprite := s.memory.readRange s.registers.i rows.val
  let drawn := s.screen.draw (s.get x).toNat (s.get y).toNat sprite
  { s with
    screen := drawn.1
    registers := s.registers.set Registers.flag (if drawn.2 then 1 else 0)
    drawFlag := true }

def execute (s : State) (g : Generator) : Instruction → Except Fault (State × Generator)
  | .clear => .ok ({ s with screen := .blank, drawFlag := true }, g)
  | .ret => s.registers.pop.map fun (w, r) => ({ s with registers := r.jump w }, g)
  | .routine _ => .ok (s, g)
  | .jump a => .ok (s.jump a.toWord, g)
  | .call a =>
    (s.registers.push s.registers.pc).map fun r => ({ s with registers := r.jump a.toWord }, g)
  | .skip c => .ok ({ s with registers := s.registers.skipIf (c.holds s) }, g)
  | .setByte x b => .ok (s.setRegister x b, g)
  | .addByte x b => .ok (s.setRegister x (s.get x + b), g)
  | .operate op x y => .ok ({ s with registers := s.registers.operate op x y }, g)
  | .setIndex a => .ok (s.setIndex a.toWord, g)
  | .jumpOffset a => .ok (s.jump ((s.get (Nibble.ofNat 0)).toUInt16 + a.toWord), g)
  | .random x mask => .ok (s.setRegister x (g.next.1.toUInt8 &&& mask), g.next.2)
  | .draw x y rows => .ok (s.draw x y rows, g)
  | .readDelay x => .ok (s.setRegister x s.timers.delay.value, g)
  | .awaitKey x => .ok ({ s with keypad := s.keypad.await x, mode := .awaitingKey }, g)
  | .setTimer t x => .ok ({ s with timers := s.timers.set t ((s.timers.get t).set (s.get x)) }, g)
  | .addIndex x => .ok (s.setIndex (s.registers.i + (s.get x).toUInt16), g)
  | .pointGlyph x => .ok (s.setIndex (glyphAddress (s.get x)), g)
  | .storeDecimal x =>
    .ok ({ s with memory := s.memory.store s.registers.i (decimalDigits (s.get x)) }, g)
  | .storeRegisters x =>
    .ok ({ s with memory := s.memory.store s.registers.i (s.registers.upTo x) }, g)
  | .loadRegisters x =>
    let bytes := s.memory.readRange s.registers.i (x.val + 1)
    .ok ({ s with registers := s.registers.setFrom 0 bytes }, g)

end State
end Chip8
