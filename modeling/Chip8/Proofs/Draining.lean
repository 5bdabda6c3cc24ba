import Chip8.Proofs.SessionSteps
import Chip8.Proofs.TimerTicks

/-! # Draining

The timer phase of a cycle delivers due ticks until none is left. Each of them makes the agenda
shorter or lowers a timer, and every unit by which it lowers the sound timer is a beep. -/
namespace Chip8

namespace Machine

variable (m : Machine) (t : Timer)

theorem schedulings_timerTick :
    schedulings (m.timerTick t m.epoch).2 =
      if (m.timer t).step.1.running then [m.schedule t] else [] := by
  have hs : schedulings (m.sounds t) = [] := by
    unfold sounds
    split <;> rfl
  rw [effects_timerTick, schedulings_append, hs, reschedules]
  split <;> rfl

theorem count_playSound_timerTick :
    (m.timerTick t m.epoch).2.count .playSound = (m.sounds t).length := by
  have hr : (m.reschedules t).count .playSound = 0 := by
    unfold reschedules
    split <;> rfl
  rw [effects_timerTick, List.count_append, hr, sounds]
  split <;> rfl

/-- Ticks only lower timers. A tick that asks for another one has lowered its own timer. -/
theorem length_schedulings_timerTick (epoch : UInt32) :
    (schedulings (m.timerTick t epoch).2).length +
        ((m.timerTick t epoch).1.timer .delay).value.toNat +
        ((m.timerTick t epoch).1.timer .sound).value.toNat ≤
      (m.timer .delay).value.toNat + (m.timer .sound).value.toNat := by
  by_cases he : epoch = m.epoch
  · subst he
    have hv := (m.timer t).value_step
    have hr := (m.timer t).running_step
    have hl : (if (m.timer t).step.1.running then [m.schedule t] else []).length +
        (m.timer t).step.1.value.toNat ≤ (m.timer t).value.toNat := by
      rw [hv]
      split
      next h =>
        obtain ⟨hrun, hlt⟩ := hr.mp h
        rw [hrun]
        simp
        omega
      next => simp
    rw [schedulings_timerTick, timer_timerTick, timer_timerTick]
    cases t with
    | delay => exact Nat.add_le_add_right hl _
    | sound =>
      have hd : Timer.delay ≠ .sound := by decide
      rw [if_neg hd, if_pos rfl, Nat.add_right_comm, Nat.add_comm (m.timer .delay).value.toNat]
      exact Nat.add_le_add_right hl _
  · rw [timerTick_of_stale he]
    simp [schedulings]

/-- The sound timer sounds for every unit that a tick takes off it. -/
theorem count_playSound_add (epoch : UInt32) :
    (m.timerTick t epoch).2.count .playSound +
        ((m.timerTick t epoch).1.timer .sound).value.toNat =
      (m.timer .sound).value.toNat := by
  by_cases he : epoch = m.epoch
  · subst he
    have hv := (m.timer .sound).value_step
    rw [count_playSound_timerTick, timer_timerTick]
    cases t with
    | delay => simp [sounds]
    | sound =>
      rw [if_pos rfl, hv, sounds]
      have hz : (m.timer .sound).value ≠ 0 ↔ 0 < (m.timer .sound).value.toNat := by
        rw [Nat.pos_iff_ne_zero, Ne, Ne, ← UInt8.toNat_inj]
        rfl
      cases hr : (m.timer .sound).running with
      | false => simp
      | true =>
        simp only [hz, true_and]
        split
        next hp => simp; omega
        next hn => simp; omega
  · rw [timerTick_of_stale he]
    simp

end Machine

namespace Session

open SessionM

/-- The session after it has taken a tick off the agenda and delivered it. -/
def fired (s : Session) (k : PendingTick) (agenda : Agenda) : Session :=
  ({ s with agenda }.handled (.timerTick k.timer k.epoch)).1.carriedOut k.due
    (s.machine.timerTick k.timer k.epoch).2

def drained : Nat → Session → Session
  | 0, s => s
  | n + 1, s =>
    match s.agenda.popDue? s.clock with
    | none => s
    | some (k, agenda) => drained n (s.fired k agenda)

/-- No timer phase ends a session. -/
theorem drain_eq (f : Frontend) (n : Nat) (s : Session) : drain f n s = .ok () (s.drained n) := by
  induction n generalizing s with
  | zero => rfl
  | succ n ih =>
    rw [drain, drained, bind_of_ok (get_eq s), bind_of_ok (get_eq s)]
    cases hp : s.agenda.popDue? s.clock with
    | none => rfl
    | some popped =>
      obtain ⟨k, agenda⟩ := popped
      have hd := dispatch_of_frames (s.machine.frames_timerTick k.timer k.epoch) f k.due
        ({ s with agenda }.handled (.timerTick k.timer k.epoch)).1
      exact (bind_of_ok (modify_eq _ s) _).trans <| (bind_of_ok (deliver_of_ok rfl) _).trans <|
        (bind_of_ok hd _).trans (ih _)

theorem drainDue_eq (f : Frontend) (s : Session) :
    drainDue f s = .ok () (s.drained s.dueBound) := by
  rw [drainDue, bind_of_ok (get_eq s), drain_eq]

/-- What every delivery of a due tick preserves holds after the timer phase. -/
theorem drained_induction {P : Session → Prop}
    (hP : ∀ s k agenda, s.agenda.popDue? s.clock = some (k, agenda) → P s → P (s.fired k agenda))
    (n : Nat) {s : Session} (h : P s) : P (s.drained n) := by
  induction n generalizing s with
  | zero => exact h
  | succ n ih =>
    unfold drained
    split
    next => exact h
    next k agenda hp => exact ih (hP s k agenda hp h)

theorem machine_fired (s : Session) (k : PendingTick) (agenda : Agenda) :
    (s.fired k agenda).machine = (s.machine.timerTick k.timer k.epoch).1 :=
  machine_carriedOut ..

theorem clock_fired (s : Session) (k : PendingTick) (agenda : Agenda) :
    (s.fired k agenda).clock = s.clock :=
  clock_carriedOut ..

theorem beeps_fired (s : Session) (k : PendingTick) (agenda : Agenda) :
    (s.fired k agenda).beeps =
      s.beeps + (s.machine.timerTick k.timer k.epoch).2.count .playSound := by
  have hb : ({ s with agenda }.handled (.timerTick k.timer k.epoch)).1.beeps = s.beeps :=
    congrArg (List.count _) (calls_handled ..)
  rw [fired, beeps_carriedOut, hb]

theorem clock_drained (n : Nat) (s : Session) : (s.drained n).clock = s.clock := by
  refine drained_induction (P := fun s' => s'.clock = s.clock) ?_ n rfl
  intro s' k agenda _ h
  exact (clock_fired s' k agenda).trans h

theorem cycles_drained (n : Nat) (s : Session) : (s.drained n).cycles = s.cycles := by
  refine drained_induction (P := fun s' => s'.cycles = s.cycles) ?_ n rfl
  intro s' k agenda _ h
  exact (cycles_carriedOut ..).trans h

theorem mode_drained (n : Nat) (s : Session) : (s.drained n).machine.mode = s.machine.mode := by
  refine drained_induction (P := fun s' => s'.machine.mode = s.machine.mode) ?_ n rfl
  intro s' k agenda _ h
  obtain ⟨timers, ht⟩ := s'.machine.timerTick_frame k.timer k.epoch
  rw [machine_fired, ht]
  exact h

/-- Beeps are paid for with units of the sound timer. -/
theorem beeps_drained (n : Nat) (s : Session) :
    (s.drained n).beeps + ((s.drained n).machine.timer .sound).value.toNat =
      s.beeps + (s.machine.timer .sound).value.toNat := by
  refine drained_induction (P := fun s' => s'.beeps + (s'.machine.timer .sound).value.toNat =
    s.beeps + (s.machine.timer .sound).value.toNat) ?_ n rfl
  intro s' k agenda _ h
  have hc := s'.machine.count_playSound_add k.timer k.epoch
  rw [beeps_fired, machine_fired, Nat.add_assoc, hc, h]

theorem beeps_le_drained (n : Nat) (s : Session) : s.beeps ≤ (s.drained n).beeps := by
  refine drained_induction (P := fun s' => s.beeps ≤ s'.beeps) ?_ n (Nat.le_refl _)
  intro s' k agenda _ h
  rw [beeps_fired]
  exact Nat.le_add_right_of_le h

theorem dueBound_fired_lt {s : Session} {k : PendingTick} {agenda : Agenda}
    (h : s.agenda.popDue? s.clock = some (k, agenda)) :
    (s.fired k agenda).dueBound < s.dueBound := by
  have hl : s.agenda.length = agenda.length + 1 :=
    congrArg List.length (Agenda.ticks_of_popDue? h).1
  have hf : (s.fired k agenda).agenda.length =
      agenda.length + (schedulings (s.machine.timerTick k.timer k.epoch).2).length :=
    length_agenda_carriedOut ..
  have hs := s.machine.length_schedulings_timerTick k.timer k.epoch
  unfold dueBound
  rw [hf, machine_fired, hl]
  simp only [Machine.timer, Timers.get] at hs
  omega

/-- The bound leaves room for all ticks that are due. -/
theorem popDue?_drained {n : Nat} {s : Session} (h : s.dueBound ≤ n) :
    (s.drained n).agenda.popDue? (s.drained n).clock = none := by
  induction n generalizing s with
  | zero =>
    have hl : s.agenda.length = 0 := by
      unfold dueBound at h
      omega
    have hn : s.agenda.ticks = [] := List.length_eq_zero_iff.mp hl
    rw [drained, Agenda.popDue?_eq_none_iff, hn]
    simp
  | succ n ih =>
    unfold drained
    split
    next hp => exact hp
    next k agenda hp =>
      have hlt := dueBound_fired_lt hp
      exact ih (by omega)

end Session
end Chip8
