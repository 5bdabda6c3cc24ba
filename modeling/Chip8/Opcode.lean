import Chip8.Address
import Chip8.Nibble

/-! # Instruction words

The fields of a 16-bit word `fxyn`: the family `f`, the registers `x` and `y`, the nibble `n`, the
byte `yn` and the address `xyn`. -/
namespace Chip8

abbrev Opcode := UInt16

namespace Opcode

def family (w : Opcode) : Nibble := .ofNat (w.toNat / 4096)

def x (w : Opcode) : Nibble := .ofNat (w.toNat / 256)

def y (w : Opcode) : Nibble := .ofNat (w.toNat / 16)

def n (w : Opcode) : Nibble := .ofNat w.toNat

def byte (w : Opcode) : UInt8 := w.toUInt8

def address (w : Opcode) : Address := .ofWord w

def nibbles (w : Opcode) : List Nibble := [family w, x w, y w, n w]

theorem toNat_eq_nibbles (w : Opcode) :
    w.toNat = 4096 * (family w).val + 256 * (x w).val + 16 * (y w).val + (n w).val := by
  have h := w.toNat_lt
  simp only [family, x, y, n, Nibble.ofNat]
  omega

theorem toNat_byte (w : Opcode) : (byte w).toNat = 16 * (y w).val + (n w).val := by
  simp only [byte, y, n, Nibble.ofNat, UInt16.toNat_toUInt8]
  omega

end Opcode
end Chip8
