import Chip8.Address
import Chip8.Fault

/-! # Memory

A circular store of 4096 bytes. Its first 80 bytes hold the glyphs of the sixteen hexadecimal
digits, five rows of eight pixels each; programs are loaded further up. -/
namespace Chip8

structure Memory where
  bytes : Vector UInt8 4096
  deriving DecidableEq

namespace Memory

def size : Nat := 4096

def glyphSize : Nat := 5

def font : Vector UInt8 80 := #v[
  0xF0, 0x90, 0x90, 0x90, 0xF0,  0x20, 0x60, 0x20, 0x20, 0x70,
  0xF0, 0x10, 0xF0, 0x80, 0xF0,  0xF0, 0x10, 0xF0, 0x10, 0xF0,
  0x90, 0x90, 0xF0, 0x10, 0x10,  0xF0, 0x80, 0xF0, 0x10, 0xF0,
  0xF0, 0x80, 0xF0, 0x90, 0xF0,  0xF0, 0x10, 0x20, 0x40, 0x40,
  0xF0, 0x90, 0xF0, 0x90, 0xF0,  0xF0, 0x90, 0xF0, 0x10, 0xF0,
  0xF0, 0x90, 0xF0, 0x90, 0x90,  0xE0, 0x90, 0xE0, 0x90, 0xE0,
  0xF0, 0x80, 0x80, 0x80, 0xF0,  0xE0, 0x90, 0x90, 0x90, 0xE0,
  0xF0, 0x80, 0xF0, 0x80, 0xF0,  0xF0, 0x80, 0xF0, 0x80, 0x80]

def get (m : Memory) (a : Address) : UInt8 := m.bytes[a]

def read (m : Memory) (w : UInt16) : UInt8 := m.get (.ofWord w)

def write (m : Memory) (w : UInt16) (b : UInt8) : Memory :=
  ⟨m.bytes.set (Address.ofWord w).val b (Address.ofWord w).isLt⟩

/-- The high byte comes first, and the low byte may wrap to the start of memory. -/
def readWord (m : Memory) (w : UInt16) : UInt16 :=
  (m.read w).toUInt16 * 256 + (m.read (w + 1)).toUInt16

def readRange (m : Memory) (w : UInt16) (length : Nat) : List UInt8 :=
  (List.range length).map fun k => m.read (w + UInt16.ofNat k)

def store (m : Memory) (w : UInt16) : List UInt8 → Memory
  | [] => m
  | b :: bs => (m.write w b).store (w + 1) bs

def zeroed : Memory := ⟨Vector.replicate 4096 0⟩

def initial : Memory := zeroed.store 0 font.toList

instance : Inhabited Memory := ⟨initial⟩

def room (start : UInt16) : Nat := 4096 - (Address.ofWord start).val

/-- A program that does not fit between `start` and the end of memory is refused whole. -/
def load (m : Memory) (start : UInt16) (program : List UInt8) : Except Fault Memory :=
  if program.length ≤ room start then .ok (m.store start program)
  else .error (.programTooLarge program.length (room start))

theorem get_write (m : Memory) (w : UInt16) (b : UInt8) (a : Address) :
    (m.write w b).get a = if a = Address.ofWord w then b else m.get a := by
  simp only [get, write, Fin.getElem_fin, Vector.getElem_set, Fin.ext_iff, eq_comm]

/-- Bytes stored from `w` on are found at their distance from `w`. -/
theorem get_store (m : Memory) (w : UInt16) (bs : List UInt8) (h : bs.length ≤ 4096)
    (a : Address) : (m.store w bs).get a = (bs[Address.distance w a]?).getD (m.get a) := by
  induction bs generalizing m w with
  | nil => rfl
  | cons b bs ih =>
    simp only [List.length_cons] at h
    rw [store, ih _ _ (by omega), get_write, Address.distance_add_one]
    split
    next ha =>
      rw [(Address.distance_eq_zero_iff w a).mpr ha, List.getElem?_eq_none (by omega)]
      rfl
    next ha =>
      have hd := mt (Address.distance_eq_zero_iff w a).mp ha
      obtain ⟨k, hk⟩ := Nat.exists_eq_succ_of_ne_zero hd
      simp [hk]

@[simp] theorem get_zeroed (a : Address) : zeroed.get a = 0 := by
  simp [get, zeroed]

theorem get_initial (a : Address) : initial.get a = (font[a.val]?).getD 0 := by
  have h := a.isLt
  have hd : Address.distance 0 a = a.val := by
    rw [Address.distance, show (0 : UInt16).toNat = 0 from rfl]
    omega
  rw [initial, get_store _ _ _ (by simp), hd, get_zeroed]
  simp

theorem toNat_readWord (m : Memory) (w : UInt16) :
    (m.readWord w).toNat = 256 * (m.read w).toNat + (m.read (w + 1)).toNat := by
  have h := (m.read w).toNat_lt
  have l := (m.read (w + 1)).toNat_lt
  simp only [readWord, UInt16.toNat_add, UInt16.toNat_mul, UInt8.toNat_toUInt16]
  rw [show (256 : UInt16).toNat = 256 from rfl]
  omega

@[simp] theorem length_readRange (m : Memory) (w : UInt16) (n : Nat) :
    (m.readRange w n).length = n := by
  simp [readRange]

theorem getElem?_readRange (m : Memory) (w : UInt16) (n k : Nat) :
    (m.readRange w n)[k]? = if k < n then some (m.get (.ofNat (w.toNat + k))) else none := by
  by_cases h : k < n
  · rw [readRange, List.getElem?_map, List.getElem?_range h, Option.map_some, read,
      Address.ofWord_add, if_pos h]
  · rw [List.getElem?_eq_none (by rw [length_readRange]; omega), if_neg h]

end Memory
end Chip8
