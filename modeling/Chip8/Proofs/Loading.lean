import Chip8.Machine

/-! # Loading

Stored bytes are read back from where they were stored, and a program that fits replaces the whole
state by a new one with the program in it. -/
namespace Chip8

theorem Address.distance_add (w : UInt16) {k : Nat} (h : k < 4096) :
    distance w (ofWord (w + UInt16.ofNat k)) = k := by
  rw [ofWord_add, distance, val_ofNat]
  omega

namespace Memory

theorem read_store (m : Memory) (w : UInt16) {bs : List UInt8} (h : bs.length ≤ 4096) {k : Nat}
    (hk : k < bs.length) : (m.store w bs).read (w + UInt16.ofNat k) = bs[k] := by
  have hd := Address.distance_add w (show k < 4096 by omega)
  rw [read, get_store m w bs h, hd, List.getElem?_eq_getElem hk, Option.getD_some]

theorem readWord_store (m : Memory) (w : UInt16) {bs : List UInt8} (h : bs.length ≤ 4096)
    {k : Nat} (hk : k + 1 < bs.length) :
    (m.store w bs).readWord (w + UInt16.ofNat k) = bs[k].toUInt16 * 256 + bs[k + 1].toUInt16 := by
  have hn : w + UInt16.ofNat k + 1 = w + UInt16.ofNat (k + 1) := by
    rw [UInt16.ofNat_add, UInt16.add_assoc]
    rfl
  rw [readWord, hn, read_store m w h (by omega), read_store m w h hk]

/-- Below a program stands what stood there before it was stored. -/
theorem get_store_programStart (m : Memory) {program : List UInt8} (h : program.length ≤ 3584)
    (a : Address) :
    (m.store programStart program).get a =
      if a.val < 512 then m.get a else (program[a.val - 512]?).getD (m.get a) := by
  have hs : programStart.toNat = 512 := rfl
  have ha := a.isLt
  rw [get_store _ _ _ (by omega), Address.distance, hs]
  split
  next hlt =>
    rw [List.getElem?_eq_none (by omega)]
    rfl
  next hge =>
    have hd : (a.val + 4096 - 512 % 4096) % 4096 = a.val - 512 := by omega
    rw [hd]

end Memory

namespace Machine

/-- The machine `m` with the program loaded. -/
def booted (program : List UInt8) (m : Machine) : Machine :=
  { m.reset with state := { State.initial with
    memory := Memory.initial.store programStart program
    mode := .running } }

theorem load_of_le {program : List UInt8} (h : program.length ≤ 3584) (m : Machine) :
    m.load program = (m.booted program, .ok [.render .blank]) := by
  have hl : m.reset.state.memory.load programStart program =
      .ok (Memory.initial.store programStart program) := if_pos h
  rw [load, hl]
  rfl

theorem load_of_lt {program : List UInt8} (h : 3584 < program.length) (m : Machine) :
    m.load program = (m.reset, .error (.programTooLarge program.length 3584)) := by
  have hl : m.reset.state.memory.load programStart program =
      .error (.programTooLarge program.length 3584) := if_neg (Nat.not_le.mpr h)
  rw [load, hl]

/-- A program that fits is loaded into a new state; after any other attempt the state is new. -/
theorem load_cases (m : Machine) (program : List UInt8) :
    m.load program = (m.booted program, .ok [.render .blank]) ∨
      ∃ fault, m.load program = (m.reset, .error fault) := by
  by_cases h : program.length ≤ 3584
  · exact .inl (load_of_le h m)
  · exact .inr ⟨_, load_of_lt (Nat.not_le.mp h) m⟩

/-- A machine that has changed neither the program nor its way through it fetches what it was
given. -/
theorem fetched_of_memory {m : Machine} (program : List UInt8) (k : Nat)
    (h : program.length ≤ 3584)
    (hm : m.state.memory = Memory.initial.store programStart program)
    (hp : m.pc = programStart + UInt16.ofNat k) (hk : k + 1 < program.length) :
    m.fetched = program[k].toUInt16 * 256 + program[k + 1].toUInt16 := by
  rw [fetched, hm, hp]
  exact Memory.readWord_store _ _ (by omega) hk

end Machine
end Chip8
