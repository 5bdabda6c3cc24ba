import Chip8.Hexadecimal

/-! # Faults

What a machine can refuse to do: nest calls too deeply, return without a call, execute a word that
is no instruction, or take in a program. -/
namespace Chip8

inductive Fault
  | stackOverflow (address : UInt16)
  | stackUnderflow (address : UInt16)
  | unknownOpcode (opcode address : UInt16)
  | programTooLarge (size limit : Nat)
  | programUnavailable (reason : String)
  deriving DecidableEq, Inhabited

namespace Fault

def addressText (address : UInt16) : String := "0x" ++ Hexadecimal.padded 3 address.toNat

def opcodeText (opcode : UInt16) : String := "0x" ++ Hexadecimal.padded 4 opcode.toNat

def message : Fault → String
  | stackOverflow a => s!"stack overflow: call at {addressText a} exceeds 16 nested subroutines"
  | stackUnderflow a => s!"stack underflow: return at {addressText a} with an empty call stack"
  | unknownOpcode w a => s!"unknown opcode {opcodeText w} at {addressText a}"
  | programTooLarge size limit =>
    s!"program is too large ({size} bytes), max size is {limit} bytes"
  | programUnavailable reason => s!"unable to load program: {reason}"

end Fault
end Chip8
