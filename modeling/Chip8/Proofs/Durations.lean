import Chip8.CommandLine
import Chip8.Proofs.Deadlines
import Chip8.Proofs.WholeRuns

/-! # Durations

The clock of a session and its deadlines are natural numbers. A run at the pace of a command line
never adds up more of them than fits 64 bits of seconds while its cycles are counted in 64 bits, as
they are up to every limit. -/
namespace Chip8

namespace Session

/-- The clock and all deadlines are durations of 64 bits of seconds. -/
structure InRange (s : Session) : Prop where
  clock : s.clock ≤ longestDuration
  due : ∀ k ∈ s.agenda.ticks, k.due ≤ longestDuration

theorem InRange.of_timely {s : Session} (h : ∀ t, s.Timely t)
    (hc : s.clock + timerPeriod ≤ longestDuration) : s.InRange where
  clock := Nat.le_of_add_right_le hc
  due := by
    intro k hk
    obtain ⟨due, hd, hle⟩ := h k.timer
    have he := hd.eq_of_mem (List.mem_filter.mpr ⟨hk, decide_eq_true rfl⟩)
    rw [congrArg PendingTick.due he]
    exact Nat.le_trans hle hc

end Session

namespace Options

variable {o : Options} {r : Run} {j : Nat}

theorem cycleTime_le (o : Options) : o.cycleTime ≤ 1000000000 := Nat.div_le_self _ _

/-- The cycle after the last one that 64 bits can count would begin at `UInt64.size` seconds. -/
theorem clock_add_le (o : Options) (hj : j < UInt64.size) :
    j * o.cycleTime + timerPeriod ≤ longestDuration := by
  have hle : j * o.cycleTime ≤ (UInt64.size - 1) * 1000000000 :=
    Nat.mul_le_mul (Nat.le_sub_one_of_lt hj) o.cycleTime_le
  unfold longestDuration UInt64.size timerPeriod at *
  omega

/-- Every cycle begins in range, and every tick that is due in it leaves the session in range. -/
theorem inRange (h : r.Fresh) (hp : r.pace = o.pace) (hj : j < UInt64.size) :
    (∀ s, r.Begins j s → s.InRange) ∧ ∀ s, r.Polled j s → ∀ n, (s.drained n).InRange := by
  have htime : r.pace.cycleTime = o.cycleTime := by rw [hp]; rfl
  constructor
  · intro s hs
    refine .of_timely (h.timely_begins hs) ?_
    rw [h.clock_begins hs, htime]
    exact o.clock_add_le hj
  · intro s hs n
    obtain ⟨s₀, hb, calm⟩ := hs.calm
    refine .of_timely (fun t => ((h.timely_begins hb t).of_calm calm).of_drained n) ?_
    rw [Session.clock_drained, calm.clock, h.clock_begins hb, htime]
    exact o.clock_add_le hj

/-- A run with a limit is in range to its end. -/
theorem inRange_of_limit (h : r.Launched) (hp : r.pace = o.pace) {limit : UInt64}
    (hn : o.cycles = some limit) (j : Nat) :
    (∀ s, r.Begins j s → s.InRange) ∧ ∀ s, r.Polled j s → ∀ n, (s.drained n).InRange := by
  have hlimit : r.pace.cycleLimit = some limit.toNat := by
    rw [hp, pace, hn]
    rfl
  have hlt : ∀ s, r.Begins j s → j < UInt64.size := fun _ hb =>
    Nat.lt_of_le_of_lt (h.le_of_begins hlimit hb) limit.toNat_lt
  constructor
  · intro s hb
    exact (inRange h.toFresh hp (hlt s hb)).1 s hb
  · intro s hs
    obtain ⟨s₀, hb, _⟩ := id hs
    exact (inRange h.toFresh hp (hlt s₀ hb)).2 s hs

end Options
end Chip8
