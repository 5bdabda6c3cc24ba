/-! # Two-operand arithmetic

The operations on a pair of bytes `a`, `b`, the first of which the result replaces. Those with a
flag report a carry, the absence of a borrow, or the bit shifted out. -/
namespace Chip8

inductive Operation
  | copy
  | or
  | and
  | xor
  | add
  | subtract
  | shiftRight
  | subtractFrom
  | shiftLeft
  deriving DecidableEq

namespace Operation

def result (a b : UInt8) : Operation → UInt8
  | copy => b
  | or => a ||| b
  | and => a &&& b
  | xor => a ^^^ b
  | add => a + b
  | subtract => a - b
  | shiftRight => a / 2
  | subtractFrom => b - a
  | shiftLeft => a * 2

def flag? (a b : UInt8) : Operation → Option UInt8
  | copy | or | and | xor => none
  | add => some (if 256 ≤ a.toNat + b.toNat then 1 else 0)
  | subtract => some (if b ≤ a then 1 else 0)
  | shiftRight => some (a % 2)
  | subtractFrom => some (if a ≤ b then 1 else 0)
  | shiftLeft => some (a / 128)

/-- The last nibble of the words `8xyn`. -/
def ofNibble? : Nat → Option Operation
  | 0x0 => some copy
  | 0x1 => some or
  | 0x2 => some and
  | 0x3 => some xor
  | 0x4 => some add
  | 0x5 => some subtract
  | 0x6 => some shiftRight
  | 0x7 => some subtractFrom
  | 0xE => some shiftLeft
  | _ => none

end Operation
end Chip8
