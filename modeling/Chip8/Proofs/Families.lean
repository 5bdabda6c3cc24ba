import Chip8.Proofs.Footprint

/-! # Families of words

The first nibble of a word tells most of what it means: each instruction has words of one family
only, and some families have words of one kind of instruction only. -/
namespace Chip8

namespace Instruction

/-- The first nibble of the words that the instruction has. -/
def family : Instruction → Nat
  | clear | ret | routine _ => 0x0
  | jump _ => 0x1
  | call _ => 0x2
  | skip (.byteEqual ..) => 0x3
  | skip (.byteDiffers ..) => 0x4
  | skip (.equal ..) => 0x5
  | setByte .. => 0x6
  | addByte .. => 0x7
  | operate .. => 0x8
  | skip (.differs ..) => 0x9
  | setIndex _ => 0xA
  | jumpOffset _ => 0xB
  | random .. => 0xC
  | draw .. => 0xD
  | skip (.keyDown _) | skip (.keyUp _) => 0xE
  | _ => 0xF

theorem family_of_transfer? {x : Register} {b : Nat} {i : Instruction}
    (h : transfer? x b = some i) : i.family = 0xF := by
  unfold transfer? at h
  split at h <;> cases h <;> rfl

theorem family_of_keyTest? {x : Register} {b : Nat} {i : Instruction}
    (h : keyTest? x b = some i) : i.family = 0xE := by
  unfold keyTest? at h
  split at h <;> cases h <;> rfl

theorem family_of_decode? {w : Opcode} {i : Instruction} (h : decode? w = some i) :
    i.family = (Opcode.family w).val := by
  have hf := (Opcode.family w).isLt
  unfold decode? at h
  split at h
  case h_1 hw =>
    rw [hw]
    split at h
    · cases h
      rfl
    · split at h <;> cases h <;> rfl
  case h_6 hw | h_10 hw =>
    rw [hw]
    split at h <;> cases h
    rfl
  case h_9 hw =>
    obtain ⟨op, _, rfl⟩ := Option.map_eq_some_iff.mp h
    rw [hw]
    rfl
  case h_15 hw => rw [hw, family_of_keyTest? h]
  case h_16 =>
    rw [family_of_transfer? h]
    simp only [imp_false] at *
    omega
  all_goals
    rename_i hw
    cases h
    rw [hw]
    rfl

end Instruction

namespace Opcode

/-- Words that are no instruction mean what a machine code routine does. -/
theorem decode?_of_meaning {w : Opcode} {i : Instruction} (h : meaning w = i)
    (hi : ∀ a, i ≠ .routine a) : Instruction.decode? w = some i := by
  cases hd : Instruction.decode? w with
  | none =>
    rw [meaning, hd] at h
    exact absurd h.symm (hi _)
  | some j =>
    rw [meaning_of_decode? hd] at h
    rw [h]

theorem family_of_meaning {w : Opcode} {i : Instruction} (h : meaning w = i)
    (hi : ∀ a, i ≠ .routine a) : (family w).val = i.family :=
  (Instruction.family_of_decode? (decode?_of_meaning h hi)).symm

theorem meaning_of_family_jump {w : Opcode} (h : (family w).val = 0x1) :
    meaning w = .jump (address w) := by
  apply meaning_of_decode?
  simp only [Instruction.decode?, h]

theorem meaning_of_family_call {w : Opcode} (h : (family w).val = 0x2) :
    meaning w = .call (address w) := by
  apply meaning_of_decode?
  simp only [Instruction.decode?, h]

theorem meaning_of_family_jumpOffset {w : Opcode} (h : (family w).val = 0xB) :
    meaning w = .jumpOffset (address w) := by
  apply meaning_of_decode?
  simp only [Instruction.decode?, h]

theorem meaning_of_family_draw {w : Opcode} (h : (family w).val = 0xD) :
    meaning w = .draw (x w) (y w) (n w) := by
  apply meaning_of_decode?
  simp only [Instruction.decode?, h]

theorem meaning_of_family_random {w : Opcode} (h : (family w).val = 0xC) :
    meaning w = .random (x w) (byte w) := by
  apply meaning_of_decode?
  simp only [Instruction.decode?, h]

theorem family_meaning_random_iff {w : Opcode} :
    (meaning w).family = 0xC ↔ (family w).val = 0xC := by
  constructor
  · intro h
    have hi : ∀ a, meaning w ≠ .routine a := by
      intro a ha
      rw [ha] at h
      cases h
    rw [family_of_meaning rfl hi, h]
  · intro h
    rw [meaning_of_family_random h]
    rfl

theorem meaning_of_family_zero {w : Opcode} (h : (family w).val = 0x0) :
    meaning w =
      if w = 0x00E0 then .clear else if w = 0x00EE then .ret else .routine (address w) := by
  apply meaning_of_decode?
  simp only [Instruction.decode?, h, apply_ite some]

theorem meaning_eq_clear_iff {w : Opcode} : meaning w = .clear ↔ w = 0x00E0 := by
  constructor
  · intro h
    rw [meaning_of_family_zero (family_of_meaning h (by simp))] at h
    split at h
    next hw => exact hw
    next => split at h <;> cases h
  · rintro rfl
    decide

theorem meaning_eq_ret_iff {w : Opcode} : meaning w = .ret ↔ w = 0x00EE := by
  constructor
  · intro h
    rw [meaning_of_family_zero (family_of_meaning h (by simp))] at h
    split at h
    next => cases h
    next =>
      split at h
      next hw => exact hw
      next => cases h
  · rintro rfl
    decide

end Opcode
end Chip8
