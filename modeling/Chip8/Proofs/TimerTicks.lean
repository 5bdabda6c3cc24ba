import Chip8.Proofs.Effects

/-! # Timer ticks

A tick of the current epoch lets one timer go through one period and asks for another tick exactly
when the timer still runs. A stale tick does nothing. -/
namespace Chip8

namespace Countdown

theorem step_of_idle {c : Countdown} (h : c.running = false) : c.step = (c, .idle) := by
  simp [step, h]

theorem step_of_le {c : Countdown} (h : c.running = true) (hv : c.value.toNat ≤ 1) :
    c.step = (idle, .stopped) := by
  have hle : c.value ≤ 1 := UInt8.le_iff_toNat_le.mpr hv
  simp [step, h, hle]

theorem step_of_lt {c : Countdown} (h : c.running = true) (hv : 1 < c.value.toNat) :
    c.step = (⟨c.value - 1, true⟩, .again) := by
  have hlt : ¬ c.value ≤ 1 := fun hle => Nat.not_le.mpr hv (UInt8.le_iff_toNat_le.mp hle)
  simp [step, h, hlt]

/-- A period takes one off the value of a running countdown. -/
theorem value_step (c : Countdown) :
    c.step.1.value.toNat = c.value.toNat - c.running.toNat := by
  cases hr : c.running with
  | false =>
    rw [step_of_idle hr]
    rfl
  | true =>
    by_cases hv : c.value.toNat ≤ 1
    · rw [step_of_le hr hv]
      exact (Nat.sub_eq_zero_of_le hv).symm
    · have hlt : 1 < c.value.toNat := Nat.not_le.mp hv
      rw [step_of_lt hr hlt]
      exact UInt8.toNat_sub_of_le _ _ (UInt8.le_iff_toNat_le.mpr (Nat.le_of_lt hlt))

theorem running_step (c : Countdown) :
    c.step.1.running = true ↔ c.running = true ∧ 1 < c.value.toNat := by
  cases hr : c.running with
  | false => simp [step_of_idle hr, hr]
  | true =>
    by_cases hv : c.value.toNat ≤ 1
    · simp [step_of_le hr hv, idle, hv]
    · simp [step_of_lt hr (Nat.not_le.mp hv), Nat.not_le.mp hv]

theorem again_iff (c : Countdown) : c.step.2 = .again ↔ c.step.1.running = true := by
  by_cases hr : c.running = true
  · by_cases hv : c.value.toNat ≤ 1
    · rw [step_of_le hr hv]
      decide
    · simp [step_of_lt hr (Nat.not_le.mp hv)]
  · have hn : c.running = false := Bool.not_eq_true _ ▸ hr
    simp [step_of_idle hn, hn]

end Countdown

namespace Machine

def timer (m : Machine) (t : Timer) : Countdown := m.state.timers.get t

theorem timerTick_of_stale {m : Machine} {epoch : UInt32} (h : epoch ≠ m.epoch) (t : Timer) :
    m.timerTick t epoch = (m, []) := by
  rw [timerTick, if_neg h]

/-- Timer ticks change nothing but timers. -/
theorem timerTick_frame (m : Machine) (t : Timer) (epoch : UInt32) :
    ∃ timers, (m.timerTick t epoch).1 = { m with state := { m.state with timers } } := by
  unfold timerTick
  split
  · exact ⟨_, rfl⟩
  · exact ⟨m.state.timers, rfl⟩

theorem epoch_timerTick (m : Machine) (t : Timer) (epoch : UInt32) :
    (m.timerTick t epoch).1.epoch = m.epoch := by
  obtain ⟨timers, ht⟩ := m.timerTick_frame t epoch
  rw [ht]

theorem machine_timerTick (m : Machine) (t : Timer) :
    (m.timerTick t m.epoch).1 =
      { m with state := { m.state with timers := m.state.timers.set t (m.timer t).step.1 } } := by
  rw [timerTick, if_pos rfl]
  rfl

theorem timer_timerTick (m : Machine) (t u : Timer) :
    (m.timerTick t m.epoch).1.timer u = if u = t then (m.timer t).step.1 else m.timer u := by
  rw [machine_timerTick]
  exact Timers.get_set ..

theorem timer_timerTick_of_ne {m : Machine} {t u : Timer} (h : u ≠ t) (epoch : UInt32) :
    (m.timerTick t epoch).1.timer u = m.timer u := by
  by_cases he : epoch = m.epoch
  · rw [he, timer_timerTick, if_neg h]
  · rw [timerTick_of_stale he]

/-- A sound for the period that ends. -/
def sounds (m : Machine) (t : Timer) : List Effect :=
  if t = .sound ∧ (m.timer t).running ∧ (m.timer t).value ≠ 0 then [.playSound] else []

def reschedules (m : Machine) (t : Timer) : List Effect :=
  if (m.timer t).step.1.running then [m.schedule t] else []

theorem effects_timerTick (m : Machine) (t : Timer) :
    (m.timerTick t m.epoch).2 = m.sounds t ++ m.reschedules t := by
  have ha := (m.timer t).again_iff
  rw [timerTick, if_pos rfl]
  simp only [reschedules, ← ha]
  rfl

theorem frames_timerTick (m : Machine) (t : Timer) (epoch : UInt32) :
    frames (m.timerTick t epoch).2 = [] := by
  by_cases he : epoch = m.epoch
  · subst he
    rw [effects_timerTick, frames_append, sounds, reschedules]
    split <;> split <;> rfl
  · rw [timerTick_of_stale he]
    rfl

/-- All that a tick asks for but a sound is another tick of its timer, if that runs on. -/
theorem filterMap_timerTick {α : Type} {g : Effect → Option α} (hg : g .playSound = none)
    (m : Machine) (t : Timer) :
    (m.timerTick t m.epoch).2.filterMap g =
      if (m.timer t).step.1.running then (g (m.schedule t)).toList else [] := by
  have hs : (m.sounds t).filterMap g = [] := by
    unfold sounds
    split
    · simp [hg]
    · rfl
  rw [effects_timerTick, List.filterMap_append, hs, reschedules]
  split
  · cases h : g (m.schedule t) <;> simp [h]
  · rfl

end Machine
end Chip8
