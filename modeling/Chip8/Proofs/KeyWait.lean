import Chip8.Proofs.Reachability

/-! # Waiting for a key

A register waits for a key exactly when the machine is in the mode for it. The two are separate
parts of the state, and every stimulus keeps them in step. From there on nothing happens to the
machine but to its timers and keys until a key is pressed, which ends the wait. -/
namespace Chip8

/-- The word `Fx0A`. -/
def Opcode.IsKeyWait (x : Register) (w : Opcode) : Prop := w.toNat = 0xF00A + 0x100 * x.val

namespace Instruction

theorem decode?_keyWait {x : Register} {w : Opcode} (h : Opcode.IsKeyWait x w) :
    decode? w = some (.awaitKey x) := by
  have hx := x.isLt
  unfold Opcode.IsKeyWait at h
  have hf : (Opcode.family w).val = 15 := by
    simp only [Opcode.family, Nibble.ofNat]
    omega
  have hxw : Opcode.x w = x := by
    apply Fin.ext
    simp only [Opcode.x, Nibble.ofNat]
    omega
  have hb : (Opcode.byte w).toNat = 10 := by
    simp only [Opcode.byte, UInt16.toNat_toUInt8]
    omega
  simp only [decode?, hf, hxw, hb]
  rfl

theorem eq_of_transfer? {x y : Register} {b : Nat} (h : transfer? x b = some (.awaitKey y)) :
    b = 0x0A ∧ x = y := by
  unfold transfer? at h
  split at h <;> simp_all

theorem keyTest?_ne_awaitKey {x y : Register} {b : Nat} : keyTest? x b ≠ some (.awaitKey y) := by
  unfold keyTest?
  split <;> simp

/-- The families with branches of their own hold no instruction that waits. -/
theorem transfer?_of_decode? {y : Register} {w : Opcode} (h : decode? w = some (.awaitKey y)) :
    (Opcode.family w).val = 15 ∧
      transfer? (Opcode.x w) (Opcode.byte w).toNat = some (.awaitKey y) := by
  have hf := (Opcode.family w).isLt
  unfold decode? at h
  split at h
  case h_1 =>
    split at h
    · cases h
    · split at h <;> cases h
  case h_6 | h_10 => split at h <;> cases h
  case h_9 =>
    obtain ⟨op, _, he⟩ := Option.map_eq_some_iff.mp h
    cases he
  case h_15 => exact absurd h keyTest?_ne_awaitKey
  case h_16 =>
    refine ⟨?_, h⟩
    simp only [imp_false] at *
    omega
  all_goals cases h

theorem isKeyWait_of_decode? {y : Register} {w : Opcode}
    (h : decode? w = some (.awaitKey y)) : Opcode.IsKeyWait y w := by
  obtain ⟨hf, ht⟩ := transfer?_of_decode? h
  obtain ⟨hb, hx⟩ := eq_of_transfer? ht
  have hw := Opcode.toNat_eq_nibbles w
  rw [Opcode.toNat_byte] at hb
  rw [hf, hx] at hw
  unfold Opcode.IsKeyWait
  omega
end Instruction

theorem Opcode.awaits?_eq_some_iff {x : Register} {w : Opcode} :
    (meaning w).awaits? = some x ↔ IsKeyWait x w := by
  constructor
  · intro h
    cases hd : Instruction.decode? w with
    | none =>
      rw [meaning, hd] at h
      cases h
    | some i =>
      rw [meaning_of_decode? hd] at h
      cases i with
      | awaitKey y =>
        cases h
        exact Instruction.isKeyWait_of_decode? hd
      | _ => cases h
  · intro h
    rw [meaning_of_decode? (Instruction.decode?_keyWait h)]
    rfl

theorem Opcode.awaits?_eq_none {w : Opcode} (h : ∀ x, ¬ IsKeyWait x w) :
    (meaning w).awaits? = none := by
  apply Option.eq_none_iff_forall_ne_some.mpr
  intro x hx
  exact h x (awaits?_eq_some_iff.mp hx)

namespace Machine

/-- A register waits exactly in the mode for it. -/
def WaitsInMode (m : Machine) : Prop :=
  m.state.keypad.waiting.isSome = true ↔ m.mode = .awaitingKey

namespace WaitsInMode

variable {m m' : Machine}

theorem waiting_eq_none (h : m.WaitsInMode) (hm : m.mode ≠ .awaitingKey) :
    m.state.keypad.waiting = none := by
  cases hw : m.state.keypad.waiting with
  | none => rfl
  | some x => exact absurd (h.mp (by rw [hw]; rfl)) hm

theorem of_none (mode : Mode) (hw : m.state.keypad.waiting = none) (hm : m.mode = mode)
    (hne : mode ≠ .awaitingKey) : m.WaitsInMode := by
  constructor
  · intro h
    rw [hw] at h
    cases h
  · intro h
    exact absurd (hm.symm.trans h) hne

/-- Only `Fx0A` touches either part, and it sets both. -/
theorem step (h : m.WaitsInMode) (hs : m.step = .ok m') : m'.WaitsInMode := by
  have hf := footprint_of_step hs
  unfold WaitsInMode mode
  rw [hf.keypad, hf.mode]
  cases (Opcode.meaning m.fetched).awaits? with
  | none => exact h
  | some x => simp [Keypad.await]

/-- A running machine waits for no key, so halting it keeps the two in step. -/
theorem failed (h : m.WaitsInMode) (hr : m.mode = .running) : m.failed.WaitsInMode := by
  have hm : m.mode ≠ .awaitingKey := by
    rw [hr]
    decide
  exact of_none .halted (h.waiting_eq_none hm) rfl (by decide)

theorem tick (h : m.WaitsInMode) (n : Nat) : (m.tick n).1.WaitsInMode :=
  tick_keeps step id failed h n

theorem keyDown (h : m.WaitsInMode) (key : Key) : (m.keyDown key).WaitsInMode := by
  unfold Machine.keyDown Keypad.press
  cases hw : m.state.keypad.waiting with
  | none =>
    refine of_none m.mode rfl rfl fun hm => ?_
    have hs := h.mpr hm
    rw [hw] at hs
    cases hs
  | some x =>
    have hm : m.mode = .awaitingKey := h.mp (by rw [hw]; rfl)
    exact of_none .running rfl (if_pos hm) (by decide)

theorem load (m : Machine) (program : List UInt8) : (m.load program).1.WaitsInMode := by
  rcases load_cases m program with hl | ⟨fault, hl⟩
  · rw [hl]
    exact of_none .running rfl rfl (by decide)
  · rw [hl]
    exact of_none .stopped rfl rfl (by decide)

theorem respond (h : m.WaitsInMode) (s : Stimulus) : (m.respond s).1.WaitsInMode := by
  cases s with
  | tick n => exact h.tick n
  | event e =>
    cases e with
    | cpuTick => exact h.tick _
    | timerTick t epoch =>
      obtain ⟨timers, ht⟩ := m.timerTick_frame t epoch
      change (m.timerTick t epoch).1.WaitsInMode
      rw [ht]
      exact h
    | keyDown key => exact h.keyDown _
    | keyUp key => exact h
    | programLoaded program => exact load m program
    | programUnavailable reason => exact of_none .stopped rfl rfl (by decide)

end WaitsInMode

theorem Reachable.waitsInMode {m : Machine} (h : m.Reachable) : m.WaitsInMode := by
  induction h with
  | new c key => exact .of_none .stopped rfl rfl (by decide)
  | respond s _ ih => exact ih.respond s

end Machine
end Chip8
