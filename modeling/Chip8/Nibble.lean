/-! # Nibbles

Registers and keys are numbered by four bits. A whole byte names the one of its low nibble. -/
namespace Chip8

abbrev Nibble := Fin 16

abbrev Register := Nibble

abbrev Key := Nibble

namespace Nibble

theorem mod_lt (n : Nat) : n % 16 < 16 := Nat.mod_lt n (by decide)

def ofNat (n : Nat) : Nibble := ⟨n % 16, mod_lt n⟩

def ofByte (b : UInt8) : Nibble := Nibble.ofNat b.toNat

def toByte (n : Nibble) : UInt8 := UInt8.ofNat n.val

@[simp] theorem val_ofByte (b : UInt8) : (ofByte b).val = b.toNat % 16 := rfl

@[simp] theorem toNat_toByte (n : Nibble) : (toByte n).toNat = n.val := by
  have h := n.isLt
  simp only [toByte, UInt8.toNat_ofNat']
  omega

@[simp] theorem ofByte_toByte (n : Nibble) : ofByte (toByte n) = n := by
  have h := n.isLt
  apply Fin.ext
  rw [val_ofByte, toNat_toByte]
  omega

end Nibble
end Chip8
