import Chip8.Proofs.NextInstruction
import Chip8.Proofs.StoredRegisters

/-! # Bounds

The numbers that a reachable machine holds are smaller than the types they are stored in allow, and
a countdown has no value unless it runs. -/
namespace Chip8

namespace Countdown

/-- A countdown that has a value runs. -/
def Counting (c : Countdown) : Prop := 0 < c.value.toNat → c.running = true

theorem Counting.idle : Counting .idle := fun h => absurd h (by decide)

theorem Counting.set (c : Countdown) (b : UInt8) : (c.set b).Counting := by
  intro h
  have hb : b ≠ 0 := by
    rintro rfl
    exact Nat.lt_irrefl 0 h
  simp [Countdown.set, hb]

theorem Counting.step {c : Countdown} (h : c.Counting) : c.step.1.Counting := by
  cases hr : c.running with
  | false => rwa [step_of_idle hr]
  | true =>
    by_cases hv : c.value.toNat ≤ 1
    · rw [step_of_le hr hv]
      exact .idle
    · rw [step_of_lt hr (Nat.not_le.mp hv)]
      exact fun _ => rfl

end Countdown

/-- Timers are set by `Fx15` and `Fx18` only. -/
theorem State.counting_of_execute {s s' : State} {g g' : Generator} {i : Instruction}
    (h : s.execute g i = .ok (s', g')) {t : Timer} (hs : (s.timers.get t).Counting) :
    (s'.timers.get t).Counting := by
  cases hi : i.sets t with
  | false => rwa [(footprint_of_execute h).timer t hi]
  | true =>
    cases i with
    | setTimer u x =>
      cases h
      rw [of_decide_eq_true hi, Timers.get_set, if_pos rfl]
      exact .set _ _
    | _ => cases hi

namespace Machine

variable {m m' : Machine}

def TimersRun (m : Machine) : Prop := ∀ t, (m.timer t).Counting

namespace TimersRun

theorem of_idle (h : m.state.timers = .idle) : m.TimersRun := by
  intro t
  rw [timer, h]
  cases t <;> exact .idle

theorem step (h : m.TimersRun) (hs : m.step = .ok m') : m'.TimersRun := by
  obtain ⟨_, he, rfl⟩ := Fault.ok_of_map (execute_of_step hs)
  exact fun t => State.counting_of_execute he (h t)

theorem tick (h : m.TimersRun) (n : Nat) : (m.tick n).1.TimersRun :=
  tick_keeps step id (fun ha _ => ha) h n

theorem timerTick (h : m.TimersRun) (t : Timer) (epoch : UInt32) :
    (m.timerTick t epoch).1.TimersRun := by
  by_cases he : epoch = m.epoch
  · subst he
    intro u
    rw [timer_timerTick]
    split
    · exact (h t).step
    · exact h u
  · rwa [timerTick_of_stale he]

theorem respond (h : m.TimersRun) (s : Stimulus) : (m.respond s).1.TimersRun := by
  cases s with
  | tick n => exact h.tick n
  | event e =>
    cases e with
    | cpuTick => exact h.tick _
    | timerTick t epoch => exact h.timerTick t epoch
    | keyDown key =>
      obtain ⟨_, _, _, hk⟩ := m.keyDown_frame (.ofByte key)
      change (m.keyDown (.ofByte key)).TimersRun
      rw [hk]
      exact h
    | keyUp key => exact h
    | programLoaded program =>
      change (m.load program).1.TimersRun
      rcases load_cases m program with hl | ⟨fault, hl⟩ <;> rw [hl] <;> exact of_idle rfl
    | programUnavailable reason => exact of_idle rfl

end TimersRun

theorem Reachable.timersRun (h : m.Reachable) : m.TimersRun := by
  induction h with
  | new c key => exact .of_idle rfl
  | respond s _ ih => exact ih.respond s

/-- The program counter and the return addresses are addresses of bytes, the slots in use are slots
of the stack, the register that waits is one of the sixteen, and timers that have a value run. -/
structure InBounds (m : Machine) : Prop where
  pc : m.pc.toNat < 4096
  sp : m.state.registers.stored.sp.toNat ≤ 16
  returns : ∀ a ∈ m.stack.toList, a.toNat < 4096
  waiting : ∀ x ∈ m.state.keypad.waiting, (Nibble.toByte x).toNat < 16
  timers : ∀ t, 0 < (m.timer t).value.toNat → (m.timer t).running = true

theorem Reachable.inBounds (h : m.Reachable) : m.InBounds where
  pc := h.pc_lt
  sp := by
    rw [Registers.toNat_sp_stored]
    exact CallStack.depth_le _
  returns := h.returnsInMemory
  waiting := by
    intro x _
    rw [Nibble.toNat_toByte]
    exact x.isLt
  timers := h.timersRun

end Machine
end Chip8
