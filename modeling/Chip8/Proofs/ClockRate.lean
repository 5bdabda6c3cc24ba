import Chip8.Proofs.Spelling
import Chip8.Proofs.TimerAccuracy

/-! # Clock rates

A cycle takes one second divided by the rate, rounded down to nanoseconds. Up to one cycle per
nanosecond this moves the clock, and every timer runs out. Higher rates are accepted as well and
leave a cycle time of zero: the clock stands still, and no timer ever falls. -/
namespace Chip8

theorem Options.cycleTime_pos_iff {o : Options} (h : 1 ≤ o.hz.toNat) :
    1 ≤ o.cycleTime ↔ o.hz.toNat ≤ 1000000000 :=
  (Nat.le_div_iff_mul_le h).trans (by rw [Nat.one_mul])

/-- How many cycles it takes until `n` periods have passed. -/
def Pace.cyclesFor (p : Pace) (n : Nat) : Nat := (n * timerPeriod + p.cycleTime - 1) / p.cycleTime

theorem Pace.cyclesFor_le_iff {p : Pace} (h : 1 ≤ p.cycleTime) (n d : Nat) :
    p.cyclesFor n ≤ d ↔ n ≤ d * p.cycleTime / timerPeriod := by
  have hpos : 0 < timerPeriod := by decide
  rw [cyclesFor, Nat.div_le_iff_le_mul_add_pred h, Nat.le_div_iff_mul_le hpos,
    Nat.mul_comm p.cycleTime d]
  omega

theorem Countdown.eq_idle_iff {c : Countdown} :
    c = idle ↔ c.value.toNat = 0 ∧ ¬ c.running = true := by
  obtain ⟨value, running⟩ := c
  cases running <;> simp [idle, ← UInt8.toNat_inj]

theorem Countdown.after_eq_idle_iff {c : Countdown} (hr : c.running = true) (hv : c.value ≠ 0)
    (k : Nat) : c.after k = idle ↔ c.value.toNat ≤ k := by
  have hpos : 1 ≤ c.value.toNat := Nat.one_le_iff_ne_zero.mpr fun hz => hv (UInt8.toNat_inj.mp hz)
  obtain ⟨hvalue, hrunning⟩ := after_of_running hr k
  rw [Nat.max_eq_left hpos] at hrunning
  rw [eq_idle_iff, hvalue, hrunning]
  omega

namespace Run

open Session

variable {r : Run} {i j : Nat} {t : Timer} {value : UInt8} {b : Session}

/-- Cycle `i` starts the timer with the given value, and no cycle between `i` and `j` sets it. -/
structure Started (r : Run) (t : Timer) (value : UInt8) (i j : Nat) : Prop where
  cycle : ∃ a, r.Ready i a ∧ (a.machine.timer t).running = false ∧
    (a.machine.handle .cpuTick).1.timer t = ⟨value, true⟩
  kept : ∀ l b, i < l → l < j → r.Ready l b →
    ∀ w ∈ b.machine.executed (.event .cpuTick), (Opcode.meaning w).sets t = false

/-- In each later cycle the timer has counted the periods that have passed on the clock. -/
theorem Fresh.timer_of_started (h : r.Fresh) (hs : r.Started t value i j) (hij : i < j)
    (hb : r.Ready j b) :
    b.machine.timer t =
      (⟨value, true⟩ : Countdown).after ((j - i) * r.pace.cycleTime / timerPeriod) := by
  obtain ⟨a, ha, hidle, hstart⟩ := hs.cycle
  have hclock := h.clock_ready hb
  obtain ⟨u, hu, rfl⟩ := hb.polled
  obtain ⟨s₀, hs₀, calm⟩ := hu.calm
  have hcount := (h.counts_begins ha hidle hs.kept hij hs₀).1
  have hdrained := (hcount.of_calm calm).of_drained u.dueBound
  rw [hdrained.eq_after (popDue?_drained (Nat.le_refl _)), hclock, hstart, Nat.sub_mul]

theorem Fresh.idle_iff_of_started (h : r.Fresh) (hs : r.Started t value i j) (hv : value ≠ 0)
    (hp : 1 ≤ r.pace.cycleTime) (hij : i < j) (hb : r.Ready j b) :
    b.machine.timer t = .idle ↔ i + r.pace.cyclesFor value.toNat ≤ j := by
  have hiff := Pace.cyclesFor_le_iff hp value.toNat (j - i)
  rw [h.timer_of_started hs hij hb]
  refine (Countdown.after_eq_idle_iff rfl hv _).trans (hiff.symm.trans ?_)
  omega

/-- Without a cycle time no period ever passes. -/
theorem Fresh.timer_of_frozen (h : r.Fresh) (hs : r.Started t value i j)
    (hp : r.pace.cycleTime = 0) (hij : i < j) (hb : r.Ready j b) :
    b.machine.timer t = ⟨value, true⟩ := by
  rw [h.timer_of_started hs hij hb, hp, Nat.mul_zero, Nat.zero_div]
  rfl

end Run

namespace CommandLine

open Session

/-- An accepted rate of at most one cycle per nanosecond moves the clock in every cycle, and a timer
runs out exactly when its value in periods has passed, rounded up to whole cycles. With any other
accepted rate the clock stays at zero and a timer that runs keeps its value until it is set. -/
theorem timers_of_parse {arguments : List String} {o : Options} (h : parse arguments = .ok o) :
    1 ≤ o.hz.toNat ∧ (1 ≤ o.cycleTime ↔ o.hz.toNat ≤ 1000000000) ∧
      ∀ r : Run, r.Fresh → r.pace = o.pace →
        (o.hz.toNat ≤ 1000000000 →
          (∀ s s', compute r.frontend r.pace s = .ok () s' → s.clock < s'.clock) ∧
            ∀ t value i j b, r.Started t value i j → value ≠ 0 → i < j → r.Ready j b →
              (b.machine.timer t = .idle ↔ i + o.pace.cyclesFor value.toNat ≤ j)) ∧
        (1000000000 < o.hz.toNat →
          (∀ j b, r.Ready j b → b.clock = 0) ∧
            ∀ t value i j b, r.Started t value i j → i < j → r.Ready j b →
              b.machine.timer t = ⟨value, true⟩) := by
  have hz := hz_of_parse h
  have hiff := Options.cycleTime_pos_iff hz
  refine ⟨hz, hiff, fun r hfresh hpace => ⟨fun hle => ?_, fun hlt => ?_⟩⟩
  · have hp : 1 ≤ r.pace.cycleTime := hpace ▸ hiff.mpr hle
    refine ⟨fun s s' hc => ?_, fun t value i j b hs hv hij hb => ?_⟩
    · rw [clock_of_compute hc]
      omega
    · rw [← hpace]
      exact hfresh.idle_iff_of_started hs hv hp hij hb
  · have hp : r.pace.cycleTime = 0 := by
      have ho : o.cycleTime = 0 := by omega
      rw [hpace]
      exact ho
    refine ⟨fun j b hb => ?_, fun t value i j b hs hij hb => ?_⟩
    · rw [hfresh.clock_ready hb, hp, Nat.mul_zero]
    · exact hfresh.timer_of_frozen hs hp hij hb

/-- At one cycle per second the sound timer, started with the value 5, has run out one cycle after
the start. -/
theorem timers_of_parse_slow :
    ∃ o, parse ["--hz=1", "game.ch8"] = .ok o ∧
      let r : Run := ⟨⟨fun _ => [], fun _ => none⟩, o.pace, [.render .blank],
        .start ((Machine.new {} 0).booted [0x60, 0x05, 0xF0, 0x18]) .silent⟩
      r.Fresh ∧ r.Started .sound 5 0 1 ∧ o.pace.cyclesFor 5 = 1 ∧
        ∃ b, r.Ready 1 b ∧ b.machine.timer .sound = .idle := by
  have hparse : parse ["--hz=1", "game.ch8"] = .ok ⟨"game.ch8", 1, {}, none, false⟩ := rfl
  refine ⟨_, hparse, ?_⟩
  intro r
  have hfresh : r.Fresh := ⟨⟨_, _, Machine.load_of_le (by decide) _⟩, rfl, rfl⟩
  have hp₀ : r.Polled 0 (r.session.rendered .blank).polled := ⟨_, rfl, rfl, rfl⟩
  have hcpu : (r.session.machine.handle .cpuTick).1.timer .sound = ⟨5, true⟩ ∧
      (r.session.machine.handle .cpuTick).2.isOk = true := by
    decide +kernel
  have hstarted : r.Started .sound 5 0 1 :=
    ⟨⟨_, hp₀.ready, rfl, hcpu.1⟩, fun l b hl hl' => by omega⟩
  cases he : (r.session.machine.handle .cpuTick).2 with
  | error fault =>
    rw [he] at hcpu
    cases hcpu.2
  | ok es =>
    have hc₀ := compute_of_ok (f := r.frontend) (fun _ => rfl) r.pace
      (s := (r.session.rendered .blank).polled) he
    have hp₁ : r.Polled 1 _ := ⟨_, hp₀.ready.begins hc₀, rfl, rfl⟩
    obtain ⟨_, _, hruns⟩ := timers_of_parse hparse
    have hidle := ((hruns r hfresh rfl).1 (by decide)).2 .sound 5 0 1 _ hstarted (by decide)
      (by decide) hp₁.ready
    exact ⟨hfresh, hstarted, by decide, _, hp₁.ready, hidle.mpr (by decide)⟩

/-- The largest rate is accepted, and a cycle then takes less than a nanosecond. -/
theorem cycleTime_of_largest_rate :
    ∃ o, parse ["game.ch8", "--hz", "4294967295"] = .ok o ∧ ¬ 1 ≤ o.cycleTime :=
  ⟨⟨"game.ch8", 4294967295, {}, none, false⟩, rfl, by decide⟩

end CommandLine
end Chip8
