/-! # Addresses

The memory has 4096 bytes. Every number names a byte of it, the one at its remainder modulo 4096,
so address arithmetic never leaves the memory. -/
namespace Chip8

abbrev Address := Fin 4096

namespace Address

def ofNat (n : Nat) : Address := ⟨n % 4096, Nat.mod_lt n (by decide)⟩

def ofWord (w : UInt16) : Address := Address.ofNat w.toNat

def toWord (a : Address) : UInt16 := UInt16.ofNat a.val

/-- How many bytes `a` lies behind the address of `w`, going round the end of memory. -/
def distance (w : UInt16) (a : Address) : Nat := (a.val + 4096 - w.toNat % 4096) % 4096

@[simp] theorem val_ofNat (n : Nat) : (Address.ofNat n).val = n % 4096 := rfl

@[simp] theorem val_ofWord (w : UInt16) : (ofWord w).val = w.toNat % 4096 := rfl

@[simp] theorem toNat_toWord (a : Address) : (toWord a).toNat = a.val := by
  have h := a.isLt
  simp only [toWord, UInt16.toNat_ofNat']
  omega

@[simp] theorem ofWord_toWord (a : Address) : ofWord (toWord a) = a := by
  have h := a.isLt
  apply Fin.ext
  rw [val_ofWord, toNat_toWord]
  omega

/-- Sixteen-bit wrap-around does not show in an address, since 4096 divides 65536. -/
theorem ofWord_add (w : UInt16) (k : Nat) :
    ofWord (w + UInt16.ofNat k) = Address.ofNat (w.toNat + k) := by
  apply Fin.ext
  rw [val_ofWord, val_ofNat, UInt16.toNat_add, UInt16.toNat_ofNat']
  omega

theorem distance_eq_zero_iff (w : UInt16) (a : Address) : distance w a = 0 ↔ a = ofWord w := by
  have h := a.isLt
  rw [Fin.ext_iff, val_ofWord, distance]
  omega

theorem distance_add_one (w : UInt16) (a : Address) :
    distance (w + 1) a = if a = ofWord w then 4095 else distance w a - 1 := by
  have h := a.isLt
  have ha : (w + 1).toNat % 4096 = (w.toNat + 1) % 4096 := by
    rw [UInt16.toNat_add, show (1 : UInt16).toNat = 1 from rfl]
    omega
  split
  next he =>
    rw [Fin.ext_iff, val_ofWord] at he
    rw [distance, ha]
    omega
  next he =>
    rw [Fin.ext_iff, val_ofWord] at he
    rw [distance, distance, ha]
    omega

end Address
end Chip8
