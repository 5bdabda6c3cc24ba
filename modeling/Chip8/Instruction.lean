import Chip8.Arithmetic
import Chip8.Countdown
import Chip8.Opcode

/-! # Instructions

What the words of a program mean. Words that match no pattern are no instruction. -/
namespace Chip8

/-- What the skipping instructions test. -/
inductive Condition
  | byteEqual (x : Register) (byte : UInt8)
  | byteDiffers (x : Register) (byte : UInt8)
  | equal (x y : Register)
  | differs (x y : Register)
  | keyDown (x : Register)
  | keyUp (x : Register)
  deriving DecidableEq

inductive Instruction
  | clear
  | ret
  | routine (address : Address)
  | jump (target : Address)
  | call (target : Address)
  | skip (condition : Condition)
  | setByte (x : Register) (byte : UInt8)
  | addByte (x : Register) (byte : UInt8)
  | operate (op : Operation) (x y : Register)
  | setIndex (address : Address)
  | jumpOffset (base : Address)
  | random (x : Register) (mask : UInt8)
  | draw (x y : Register) (rows : Nibble)
  | readDelay (x : Register)
  | awaitKey (x : Register)
  | setTimer (timer : Timer) (x : Register)
  | addIndex (x : Register)
  | pointGlyph (x : Register)
  | storeDecimal (x : Register)
  | storeRegisters (x : Register)
  | loadRegisters (x : Register)
  deriving DecidableEq

namespace Instruction

/-- The words `Exkk`, by their last byte. -/
def keyTest? (x : Register) : Nat → Option Instruction
  | 0x9E => some (.skip (.keyDown x))
  | 0xA1 => some (.skip (.keyUp x))
  | _ => none

/-- The words `Fxkk`, by their last byte. -/
def transfer? (x : Register) : Nat → Option Instruction
  | 0x07 => some (.readDelay x)
  | 0x0A => some (.awaitKey x)
  | 0x15 => some (.setTimer .delay x)
  | 0x18 => some (.setTimer .sound x)
  | 0x1E => some (.addIndex x)
  | 0x29 => some (.pointGlyph x)
  | 0x33 => some (.storeDecimal x)
  | 0x55 => some (.storeRegisters x)
  | 0x65 => some (.loadRegisters x)
  | _ => none

def decode? (w : Opcode) : Option Instruction :=
  let x := Opcode.x w
  let y := Opcode.y w
  let byte := Opcode.byte w
  let address := Opcode.address w
  match (Opcode.family w).val with
  | 0x0 =>
    if w = 0x00E0 then some .clear
    else if w = 0x00EE then some .ret
    else some (.routine address)
  | 0x1 => some (.jump address)
  | 0x2 => some (.call address)
  | 0x3 => some (.skip (.byteEqual x byte))
  | 0x4 => some (.skip (.byteDiffers x byte))
  | 0x5 => if (Opcode.n w).val = 0 then some (.skip (.equal x y)) else none
  | 0x6 => some (.setByte x byte)
  | 0x7 => some (.addByte x byte)
  | 0x8 => (Operation.ofNibble? (Opcode.n w).val).map fun op => .operate op x y
  | 0x9 => if (Opcode.n w).val = 0 then some (.skip (.differs x y)) else none
  | 0xA => some (.setIndex address)
  | 0xB => some (.jumpOffset address)
  | 0xC => some (.random x byte)
  | 0xD => some (.draw x y (Opcode.n w))
  | 0xE => keyTest? x byte.toNat
  | _ => transfer? x byte.toNat

end Instruction
end Chip8
