import Chip8.Proofs.PendingTicks

/-! # Deadlines

When a run is about to execute instructions, no tick is overdue, and none is due later than one
period from then, however long a cycle takes. -/
namespace Chip8

namespace Session

variable {s : Session} {t : Timer}

/-- Every tick is one of the delay timer or one of the sound timer. -/
theorem length_agenda (s : Session) :
    s.agenda.length = (s.pending .delay).length + (s.pending .sound).length := by
  have hs : (s.agenda.ticks.filter fun k => ¬ decide (k.timer = .delay)) = s.pending .sound := by
    apply List.filter_congr
    intro k _
    cases k.timer <;> rfl
  have hl := List.length_eq_countP_add_countP (fun k => decide (k.timer = .delay))
    (l := s.agenda.ticks)
  rw [List.countP_eq_length_filter, List.countP_eq_length_filter, hs] at hl
  exact hl

theorem Due.length_pending {due : Nat} (h : s.Due t due) :
    (s.pending t).length = if (s.machine.timer t).running then 1 else 0 := by
  rw [h]
  split <;> rfl

theorem Due.eq_of_mem {due : Nat} (h : s.Due t due) {k : PendingTick} (hk : k ∈ s.pending t) :
    k = ⟨due, t, s.machine.epoch⟩ := by
  rw [h] at hk
  split at hk
  · exact List.mem_singleton.mp hk
  · cases hk

end Session

namespace Run.Ready

open Session

variable {r : Run} {j : Nat} {b : Session}

/-- The timer phase has left no tick that is due. -/
theorem clock_lt (h : r.Ready j b) {k : PendingTick} (hk : k ∈ b.agenda.ticks) :
    b.clock < k.due := by
  obtain ⟨u, _, rfl⟩ := h.polled
  exact (Agenda.popDue?_eq_none_iff _ _).mp (popDue?_drained (Nat.le_refl _)) k hk

/-- When cycle `j` is about to execute instructions, the agenda holds one tick for every timer that
runs and no other. Each is of the current epoch, and due within one period from then. -/
theorem agenda_on_time (h : r.Fresh) (hb : r.Ready j b) :
    b.clock = j * r.pace.cycleTime ∧
      (∀ t, (b.pending t).length = if (b.machine.timer t).running then 1 else 0) ∧
      b.agenda.length ≤ 2 ∧
      ∀ k ∈ b.agenda.ticks, k.epoch = b.machine.epoch ∧
        b.clock < k.due ∧ k.due ≤ b.clock + timerPeriod := by
  have hlength : ∀ t, (b.pending t).length = if (b.machine.timer t).running then 1 else 0 := by
    intro t
    obtain ⟨due, hd, _⟩ := h.timely_ready hb t
    exact hd.length_pending
  refine ⟨h.clock_ready hb, hlength, ?_, fun k hk => ?_⟩
  · -- There are two timers, and neither has more than one tick.
    have hle : ∀ t, (b.pending t).length ≤ 1 := by
      intro t
      rw [hlength]
      split <;> decide
    have hd := hle .delay
    have hs := hle .sound
    rw [length_agenda]
    omega
  · obtain ⟨due, hd, hle⟩ := h.timely_ready hb k.timer
    have hm : k ∈ b.pending k.timer := List.mem_filter.mpr ⟨hk, by simp⟩
    have he := hd.eq_of_mem hm
    refine ⟨congrArg PendingTick.epoch he, hb.clock_lt hk, ?_⟩
    rwa [congrArg PendingTick.due he]

/-- The program `6005 F018 1204` starts the sound timer in its first cycle of three instructions. The
clock then moves on by two periods and a half, so that the third tick is pending. -/
theorem agenda_on_time_sounding :
    let r : Run := ⟨⟨fun _ => [], fun _ => none⟩, ⟨41666667, none⟩, [.render .blank],
      .start ((Machine.new ⟨3, .halt, none⟩ 0).booted [0x60, 0x05, 0xF0, 0x18, 0x12, 0x04]) .silent⟩
    r.Fresh ∧ ∃ b, r.Ready 1 b ∧ (b.machine.timer .sound).running = true ∧
      (b.pending .sound).length = 1 ∧ b.agenda.length ≤ 2 := by
  intro r
  have hfresh : r.Fresh := ⟨⟨_, _, Machine.load_of_le (by decide) _⟩, rfl, rfl⟩
  let start : SessionM Unit := do
    play r.frontend r.pace 1 r.effects
    prepare r.frontend r.pace
  have hfacts : ((start >>= fun _ => get).run' r.session).any
      (fun b => (b.machine.timer .sound).running) = true := by
    decide +kernel
  delta EStateM.run' EStateM.run at hfacts
  cases hb : start r.session with
  | error exit s =>
    rw [SessionM.bind_of_error hb] at hfacts
    cases hfacts
  | ok _ b =>
    rw [SessionM.bind_of_ok hb] at hfacts
    have hrun : (b.machine.timer .sound).running = true := hfacts
    obtain ⟨_, s₀, hs, hp⟩ := SessionM.ok_of_bind hb
    have hready : r.Ready 1 b := ⟨s₀, hs, hp⟩
    obtain ⟨-, hlength, hle, -⟩ := agenda_on_time hfresh hready
    have hone := hlength .sound
    rw [hrun] at hone
    exact ⟨hfresh, b, hready, hrun, hone, hle⟩

end Run.Ready
end Chip8
