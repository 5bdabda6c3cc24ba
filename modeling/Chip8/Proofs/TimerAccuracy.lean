import Chip8.Proofs.PendingTicks
import Chip8.Proofs.Reachability

/-! # Timer accuracy

A timer that a cycle starts is lower by one for every whole period that has passed on the clock
since the beginning of that cycle. Its ticks are due at multiples of the period from there, in
whichever cycles they are delivered, so that no delay adds up. -/
namespace Chip8

namespace Countdown

/-- The countdown when `k` periods have passed. -/
def after (c : Countdown) : Nat → Countdown
  | 0 => c
  | k + 1 => (c.after k).step.1

theorem after_of_idle {c : Countdown} {k l : Nat} (h : (c.after k).running = false)
    (hl : k ≤ l) : c.after l = c.after k := by
  induction hl with
  | refl => rfl
  | step _ ih => rw [after, ih, step_of_idle h]

theorem after_of_running {c : Countdown} (h : c.running = true) (k : Nat) :
    (c.after k).value.toNat = c.value.toNat - k ∧
      ((c.after k).running = true ↔ k < max c.value.toNat 1) := by
  induction k with
  | zero =>
    have hpos : 0 < max c.value.toNat 1 := Nat.lt_of_lt_of_le Nat.one_pos (Nat.le_max_right ..)
    simp [after, h, hpos]
  | succ k ih =>
    obtain ⟨hv, hr⟩ := ih
    have hv' := (c.after k).value_step
    have hr' := (c.after k).running_step
    rw [after, hv', hr', hv, hr]
    constructor
    · by_cases hk : k < max c.value.toNat 1
      · rw [hr.mpr hk]
        simp
        omega
      · have hn : (c.after k).running = false := by simpa using mt hr.mp hk
        rw [hn]
        simp
        omega
    · omega

end Countdown

namespace Session

theorem timer_of_compute {f : Frontend} {p : Pace} {s s' : Session} {t : Timer}
    (hc : compute f p s = .ok () s')
    (hw : ∀ w ∈ s.machine.executed (.event .cpuTick), (Opcode.meaning w).sets t = false) :
    s'.machine.timer t = s.machine.timer t := by
  obtain ⟨es, he, _⟩ := ok_of_compute hc
  rw [machine_of_compute hc]
  exact Machine.timer_eq_of_tick (Prod.ext rfl he) hw

/-- The timer has been counting down from `c` since the clock stood at `start`. -/
def Counts (s : Session) (t : Timer) (c : Countdown) (start : Nat) : Prop :=
  ∃ k, s.machine.timer t = c.after k ∧ s.Due t (start + (k + 1) * timerPeriod) ∧
    start + k * timerPeriod ≤ s.clock

namespace Counts

variable {s s' : Session} {t : Timer} {c : Countdown} {start : Nat}

theorem of_calm (h : s.Counts t c start) (hc : s.Calm s') : s'.Counts t c start := by
  obtain ⟨k, ht, hd, hs⟩ := h
  have ht' : s'.machine.timer t = s.machine.timer t := congrArg (·.get t) hc.timers
  exact ⟨k, ht'.trans ht, hd.of_calm hc, hc.clock ▸ hs⟩

/-- The next period begins when the last one was due to end, which the clock has passed. -/
theorem of_fired (h : s.Counts t c start) {k : PendingTick} {agenda : Agenda}
    (hp : s.agenda.popDue? s.clock = some (k, agenda)) : (s.fired k agenda).Counts t c start := by
  obtain ⟨n, ht, hd, hs⟩ := h
  obtain ⟨hk, hdue⟩ := Agenda.ticks_of_popDue? hp
  by_cases hkt : k.timer = t
  · obtain ⟨ht', hd'⟩ := hd.fired_self hk hkt
    obtain ⟨_, rfl, _⟩ := hd.popped hk hkt
    refine ⟨n + 1, ?_, ?_, ?_⟩
    · rw [ht', ht, Countdown.after]
    · rwa [Nat.succ_mul (n + 1), ← Nat.add_assoc]
    · rwa [clock_fired]
  · obtain ⟨ht', hd'⟩ := hd.fired_other hk hkt
    exact ⟨n, ht'.trans ht, hd', by rwa [clock_fired]⟩

theorem of_drained (h : s.Counts t c start) (n : Nat) : (s.drained n).Counts t c start := by
  refine drained_induction (P := fun s' => s'.Counts t c start) ?_ n h
  intro s' k agenda hp hc
  exact hc.of_fired hp

theorem of_compute (h : s.Counts t c start) {f : Frontend} {p : Pace}
    (hc : compute f p s = .ok () s')
    (hw : ∀ w ∈ s.machine.executed (.event .cpuTick), (Opcode.meaning w).sets t = false) :
    s'.Counts t c start := by
  obtain ⟨k, ht, hd, hs⟩ := h
  have ht' := timer_of_compute hc hw
  have hd' := hd.of_compute hc
  refine ⟨k, ht'.trans ht, ?_, ?_⟩
  · cases hr : (s.machine.timer t).running with
    | true =>
      rw [hr, if_pos rfl] at hd'
      exact hd'
    | false =>
      rw [← ht'] at hr
      exact hd'.of_idle hr _
  · rw [clock_of_compute hc]
    exact Nat.le_add_right_of_le hs

theorem of_start {due : Nat} (hd : s.Due t due) {f : Frontend} {p : Pace}
    (hc : compute f p s = .ok () s') (hr : (s.machine.timer t).running = false) :
    s'.Counts t ((s.machine.handle .cpuTick).1.timer t) s.clock := by
  have hd' := hd.of_compute hc
  rw [if_neg (by simp [hr])] at hd'
  refine ⟨0, ?_, ?_, ?_⟩
  · rw [machine_of_compute hc]
    rfl
  · rwa [Nat.zero_add, Nat.one_mul]
  · rw [clock_of_compute hc, Nat.zero_mul]
    exact Nat.le_add_right ..

/-- Once no tick is due, all periods that have passed have been counted. -/
theorem eq_after (h : s.Counts t c start) (hn : s.agenda.popDue? s.clock = none) :
    s.machine.timer t = c.after ((s.clock - start) / timerPeriod) := by
  obtain ⟨k, ht, hd, hs⟩ := h
  have hpos : 0 < timerPeriod := by decide
  have hle : k * timerPeriod ≤ s.clock - start := by omega
  cases hr : (s.machine.timer t).running with
  | true =>
    have hm : ⟨start + (k + 1) * timerPeriod, t, s.machine.epoch⟩ ∈ s.pending t := by
      rw [hd, hr]
      exact List.mem_singleton_self _
    have hlt := (Agenda.popDue?_eq_none_iff _ _).mp hn _ (List.mem_filter.mp hm).1
    have hk : (s.clock - start) / timerPeriod = k :=
      Nat.div_eq_of_lt_le hle (by simp only at hlt; omega)
    rw [hk, ht]
  | false =>
    have hk : k ≤ (s.clock - start) / timerPeriod := (Nat.le_div_iff_mul_le hpos).mpr hle
    rw [ht] at hr ⊢
    exact (Countdown.after_of_idle hr hk).symm

end Counts

/-- The beeps so far and the units of the sound timer that are still to be turned into beeps. -/
def soundings (s : Session) : Nat := s.beeps + (s.machine.timer .sound).value.toNat

theorem soundings_of_calm {s s' : Session} (h : s.Calm s') : s'.soundings = s.soundings := by
  have ht : s'.machine.timer .sound = s.machine.timer .sound := congrArg (·.get .sound) h.timers
  rw [soundings, h.beeps, ht]
  rfl

end Session

namespace Run

open Session

variable {r : Run} {i j : Nat} {t : Timer} {a u : Session}

/-- From the cycle after the one that starts it, every cycle begins with the timer counting. -/
theorem Fresh.counts_begins (h : r.Fresh) (ha : r.Ready i a)
    (hidle : (a.machine.timer t).running = false)
    (hkeep : ∀ l b, i < l → l < j → r.Ready l b →
      ∀ w ∈ b.machine.executed (.event .cpuTick), (Opcode.meaning w).sets t = false)
    (hij : i < j) {s : Session} (hs : r.Begins j s) :
    s.Counts t ((a.machine.handle .cpuTick).1.timer t) (i * r.pace.cycleTime) ∧
      (t = .sound →
        s.soundings = a.beeps + ((a.machine.handle .cpuTick).1.timer t).value.toNat) := by
  induction hij generalizing s with
  | refl =>
    obtain ⟨b, hb, hc⟩ := hs.ready
    cases hb.unique ha
    obtain ⟨due, hd⟩ := h.due_ready ha t
    refine ⟨h.clock_ready ha ▸ Counts.of_start hd hc hidle, ?_⟩
    rintro rfl
    rw [soundings, beeps_of_compute hc, machine_of_compute hc]
  | @step j hj ih =>
    obtain ⟨b, hb, hc⟩ := hs.ready
    have hw := hkeep j b hj (Nat.lt_succ_self j) hb
    obtain ⟨u, hu, rfl⟩ := hb.polled
    obtain ⟨s₀, hs₀, calm⟩ := hu.calm
    obtain ⟨hcount, hsound⟩ := ih (fun l b hl hlj => hkeep l b hl (by omega)) hs₀
    refine ⟨((hcount.of_calm calm).of_drained _).of_compute hc hw, ?_⟩
    rintro rfl
    rw [soundings, beeps_of_compute hc, timer_of_compute hc hw, beeps_drained, ← hsound rfl]
    exact soundings_of_calm calm

/-- A timer that cycle `i` starts with the value `n` has the value `n - k` in every later cycle, `k`
being the number of whole periods in between, until it is set again. It runs while `k` is less than
`n`, and for one period at least. The sound timer beeps once for each unit. -/
theorem Fresh.timer_accuracy (h : r.Fresh) (ha : r.Ready i a)
    (hidle : (a.machine.timer t).running = false)
    (hrun : ((a.machine.handle .cpuTick).1.timer t).running = true)
    (hkeep : ∀ l b, i < l → l < j → r.Ready l b →
      ∀ w ∈ b.machine.executed (.event .cpuTick), (Opcode.meaning w).sets t = false)
    (hij : i < j) (hu : r.Polled j u) :
    let n := ((a.machine.handle .cpuTick).1.timer t).value.toNat
    let k := (j - i) * r.pace.cycleTime / timerPeriod
    ∃ b, drainDue r.frontend u = .ok () b ∧ r.Ready j b ∧ b.clock = j * r.pace.cycleTime ∧
      (b.machine.timer t).value.toNat = n - k ∧
      ((b.machine.timer t).running = true ↔ k < max n 1) ∧
      (t = .sound →
        (b.machine.timer t).value.toNat ≤ (u.machine.timer t).value.toNat ∧
          b.beeps = u.beeps +
            ((u.machine.timer t).value.toNat - (b.machine.timer t).value.toNat) ∧
          b.beeps = a.beeps + min k n) := by
  intro n k
  obtain ⟨s₀, hs₀, calm⟩ := hu.calm
  obtain ⟨hcount, hsound⟩ := h.counts_begins ha hidle hkeep hij hs₀
  have hready := hu.ready
  have hclock := h.clock_ready hready
  have hcounts := (hcount.of_calm calm).of_drained u.dueBound
  have htimer := hcounts.eq_after (popDue?_drained (Nat.le_refl _))
  rw [hclock, ← Nat.sub_mul] at htimer
  obtain ⟨hvalue, hrunning⟩ := Countdown.after_of_running hrun k
  rw [← htimer] at hvalue hrunning
  refine ⟨_, drainDue_eq _ _, hready, hclock, hvalue, hrunning, ?_⟩
  rintro rfl
  have hpaid := beeps_drained u.dueBound u
  have hle := beeps_le_drained u.dueBound u
  have hbudget : u.beeps + (u.machine.timer .sound).value.toNat = a.beeps + n :=
    (soundings_of_calm calm).trans (hsound rfl)
  refine ⟨?_, ?_, ?_⟩ <;> omega

/-- The program `6005 F018 F10A` starts the sound timer and waits for a key in one cycle of three
instructions. Two cycles later, each of them a period long, the timer has beeped twice. -/
theorem Fresh.timer_accuracy_waiting :
    let r : Run := ⟨⟨fun _ => [], fun _ => none⟩, ⟨timerPeriod, none⟩, [.render .blank],
      .start ((Machine.new ⟨3, .halt, none⟩ 0).booted [0x60, 0x05, 0xF0, 0x18, 0xF1, 0x0A]) .silent⟩
    r.Fresh ∧ ∃ a u b, r.Ready 0 a ∧ (a.machine.timer .sound).running = false ∧
      ((a.machine.handle .cpuTick).1.timer .sound).running = true ∧
      (∀ l c, 0 < l → l < 2 → r.Ready l c →
        ∀ w ∈ c.machine.executed (.event .cpuTick), (Opcode.meaning w).sets .sound = false) ∧
      r.Polled 2 u ∧ drainDue r.frontend u = .ok () b ∧
      (b.machine.timer .sound).value.toNat = 3 ∧ b.beeps = a.beeps + 2 := by
  intro r
  have hfresh : r.Fresh := ⟨⟨_, _, Machine.load_of_le (by decide) _⟩, rfl, rfl⟩
  have hp₀ : r.Polled 0 (r.session.rendered .blank).polled := ⟨_, rfl, rfl, rfl⟩
  have ha : r.Ready 0 (r.session.rendered .blank).polled := hp₀.ready
  have hcpu : (r.session.machine.handle .cpuTick).1.timer .sound = ⟨5, true⟩ ∧
      (r.session.machine.handle .cpuTick).1.mode = .awaitingKey ∧
      (r.session.machine.handle .cpuTick).2.isOk = true := by
    decide +kernel
  obtain ⟨htimer, hmode, hok⟩ := hcpu
  cases he : (r.session.machine.handle .cpuTick).2 with
  | error fault =>
    rw [he] at hok
    cases hok
  | ok es =>
    have hc₀ := compute_of_ok (f := r.frontend) (fun _ => rfl) r.pace
      (s := (r.session.rendered .blank).polled) he
    have hp₁ : r.Polled 1 _ := ⟨_, ha.begins hc₀, rfl, rfl⟩
    obtain ⟨b₁, hb₁, hr₁⟩ : ∃ b₁, r.Ready 1 b₁ ∧ b₁.machine.mode ≠ .running := by
      refine ⟨_, hp₁.ready, ?_⟩
      rw [mode_drained]
      change (carriedOut ..).machine.mode ≠ _
      rw [machine_carriedOut]
      change (r.session.machine.handle .cpuTick).1.mode ≠ _
      rw [hmode]
      decide
    have he₁ : (b₁.machine.handle .cpuTick).2 = .ok [] :=
      congrArg Prod.snd (Machine.tick_of_not_running hr₁ _)
    have hc₁ := compute_of_ok (f := r.frontend) (fun _ => rfl) r.pace he₁
    have hp₂ : r.Polled 2 _ := ⟨_, hb₁.begins hc₁, rfl, rfl⟩
    have hrun : ((r.session.machine.handle .cpuTick).1.timer .sound).running = true := by
      rw [htimer]
    have hkeep : ∀ l c, 0 < l → l < 2 → r.Ready l c →
        ∀ w ∈ c.machine.executed (.event .cpuTick), (Opcode.meaning w).sets .sound = false := by
      intro l c hl hl' hc w hw
      have h1 : l = 1 := by omega
      subst h1
      cases hc.unique hb₁
      change w ∈ b₁.machine.ticked _ at hw
      rw [Machine.ticked_of_not_running hr₁] at hw
      cases hw
    obtain ⟨b, hd, _, _, hv, _, hs⟩ :=
      hfresh.timer_accuracy ha rfl hrun hkeep (by decide) hp₂
    change _ = ((r.session.machine.handle .cpuTick).1.timer .sound).value.toNat - _ at hv
    have hb := (hs rfl).2.2
    change _ = _ + min _ ((r.session.machine.handle .cpuTick).1.timer .sound).value.toNat at hb
    have hk : (2 - 0) * r.pace.cycleTime / timerPeriod = 2 := Nat.mul_div_cancel 2 (by decide)
    rw [htimer, hk] at hv hb
    exact ⟨hfresh, _, _, b, ha, rfl, hrun, hkeep, hp₂, hd, hv, hb⟩

end Run
end Chip8
