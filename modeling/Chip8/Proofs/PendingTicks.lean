import Chip8.Proofs.Cycles

/-! # Pending ticks

At every point of a run the agenda holds one tick for each timer that runs, of the current epoch,
and none for a timer that does not. -/
namespace Chip8

theorem Agenda.insert_perm (k : PendingTick) (ks : List PendingTick) :
    (insert k ks).Perm (k :: ks) := by
  induction ks with
  | nil => exact .refl _
  | cons l ls ih =>
    unfold insert
    split
    · exact (ih.cons l).trans (.swap k l ls)
    · exact .refl _

/-- The tick that an effect asks for when it is carried out at time `now`. -/
def Effect.tick? (now : Nat) : Effect → Option PendingTick
  | schedule t epoch after => some ⟨now + after, t, epoch⟩
  | _ => none

namespace Machine

variable {m m' : Machine} {n : Nat} {es : List Effect}

theorem epoch_of_tick (h : m.tick n = (m', .ok es)) : m'.epoch = m.epoch := by
  rcases ok_of_tick h with ⟨rfl, _, _⟩ | hc
  · rfl
  · exact hc.epoch

theorem timer_running_of_tick (h : m.tick n = (m', .ok es)) {t : Timer}
    (hr : (m.timer t).running = true) : (m'.timer t).running = true := by
  rcases ok_of_tick h with ⟨rfl, _, _⟩ | hc
  · exact hr
  · exact hc.timer_running hr

theorem timer_eq_of_tick (h : m.tick n = (m', .ok es)) {t : Timer}
    (hw : ∀ w ∈ m.ticked n, (Opcode.meaning w).sets t = false) : m'.timer t = m.timer t := by
  rcases ok_of_tick h with ⟨rfl, _, _⟩ | hc
  · rfl
  · exact hc.path.timer_eq hw

theorem playSound_notMem_of_tick (h : m.tick n = (m', .ok es)) : .playSound ∉ es := by
  rcases ok_of_tick h with ⟨_, rfl, _⟩ | hc
  · exact List.not_mem_nil
  · rw [hc.effects_eq h]
    exact playSound_notMem_effectsSince _ _

/-- A tick asks for the first period of the timers that it has started. -/
theorem ticks_of_tick (h : m.tick n = (m', .ok es)) (now : Nat) (t : Timer) :
    (es.filterMap (Effect.tick? now)).filter (·.timer = t) =
      if (m.timer t).running = false ∧ (m'.timer t).running = true then
        [⟨now + timerPeriod, t, m'.epoch⟩] else [] := by
  rcases ok_of_tick h with ⟨rfl, rfl, _⟩ | hc
  · cases hr : (m'.timer t).running <;> simp
  · have hs : (m'.effectsSince m.state.timers).filterMap (Effect.tick? now) =
        (m'.startedTimers m.state.timers).map fun u => ⟨now + timerPeriod, u, m'.epoch⟩ := by
      rw [filterMap_effectsSince fun _ => rfl]
      exact congrFun List.filterMap_eq_map _
    have hf := filter_startedTimers m' m.state.timers t
    rw [hc.effects_eq h, hs, List.filter_map]
    change ((m'.startedTimers m.state.timers).filter (· = t)).map _ = _
    rw [hf, ← timer, ← timer]
    split <;> rfl

end Machine

namespace Session

theorem ticks_carriedOut (now : Nat) (es : List Effect) (s : Session) :
    (s.carriedOut now es).agenda.ticks.Perm
      (es.filterMap (Effect.tick? now) ++ s.agenda.ticks) := by
  induction es generalizing s with
  | nil => exact .refl _
  | cons e es ih =>
    cases e with
    | render frame => exact ih _
    | playSound => exact ih _
    | schedule t epoch after =>
      have hi := Agenda.insert_perm ⟨now + after, t, epoch⟩ s.agenda.ticks
      exact ((ih _).trans (hi.append_left _)).trans List.perm_middle

def pending (t : Timer) (s : Session) : List PendingTick := s.agenda.ticks.filter (·.timer = t)

/-- The order of the agenda does not matter for a timer with a single tick. -/
theorem pending_carriedOut {now : Nat} {es : List Effect} {s : Session} {t : Timer}
    (h : ((es.filterMap (Effect.tick? now)).filter (·.timer = t) ++ s.pending t).length ≤ 1) :
    (s.carriedOut now es).pending t =
      (es.filterMap (Effect.tick? now)).filter (·.timer = t) ++ s.pending t := by
  have hp := (ticks_carriedOut now es s).filter (·.timer = t)
  rw [List.filter_append] at hp
  change ((s.carriedOut now es).pending t).Perm (_ ++ s.pending t) at hp
  revert h hp
  generalize _ ++ s.pending t = ks
  intro h hp
  match ks with
  | [] => exact List.perm_nil.mp hp
  | [k] => exact List.perm_singleton.mp hp
  | _ :: _ :: _ => simp at h

/-- A timer that runs has one tick pending, which is due at the given time. -/
def Due (s : Session) (t : Timer) (due : Nat) : Prop :=
  s.pending t = if (s.machine.timer t).running then [⟨due, t, s.machine.epoch⟩] else []

namespace Due

variable {s s' : Session} {t : Timer} {due : Nat}

theorem of_calm (h : s.Due t due) (hc : s.Calm s') : s'.Due t due := by
  have ht : s'.machine.timer t = s.machine.timer t := congrArg (·.get t) hc.timers
  rw [Due, pending, hc.agenda, ht, hc.epoch]
  exact h

theorem of_idle (h : s.Due t due) (hr : (s.machine.timer t).running = false) (due' : Nat) :
    s.Due t due' := by
  have hn : ¬ (s.machine.timer t).running = true := by simp [hr]
  rw [Due, if_neg hn] at h ⊢
  exact h

/-- A tick that is taken off the agenda is the one that its timer waits for. -/
theorem popped (h : s.Due t due) {k : PendingTick} {agenda : Agenda}
    (hk : s.agenda.ticks = k :: agenda.ticks) (ht : k.timer = t) :
    (s.machine.timer t).running = true ∧ k = ⟨due, t, s.machine.epoch⟩ ∧
      agenda.ticks.filter (·.timer = t) = [] := by
  rw [Due, pending, hk, List.filter_cons_of_pos (by simp [ht])] at h
  split at h
  next hr =>
    obtain ⟨hd, hn⟩ := List.cons.inj h
    exact ⟨hr, hd, hn⟩
  next => cases h

theorem fired_self (h : s.Due t due) {k : PendingTick} {agenda : Agenda}
    (hk : s.agenda.ticks = k :: agenda.ticks) (ht : k.timer = t) :
    (s.fired k agenda).machine.timer t = (s.machine.timer t).step.1 ∧
      (s.fired k agenda).Due t (due + timerPeriod) := by
  obtain ⟨_, rfl, hn⟩ := h.popped hk ht
  have hm : (s.fired ⟨due, t, s.machine.epoch⟩ agenda).machine =
      (s.machine.timerTick t s.machine.epoch).1 := machine_fired ..
  have htimer : (s.fired ⟨due, t, s.machine.epoch⟩ agenda).machine.timer t =
      (s.machine.timer t).step.1 := by
    rw [hm, Machine.timer_timerTick, if_pos rfl]
  have hes : ((s.machine.timerTick t s.machine.epoch).2.filterMap (Effect.tick? due)).filter
      (·.timer = t) = if (s.machine.timer t).step.1.running then
        [⟨due + timerPeriod, t, s.machine.epoch⟩] else [] := by
    rw [Machine.filterMap_timerTick rfl]
    split <;> simp [Machine.schedule, Effect.tick?]
  have hb : ({ s with agenda }.handled (.timerTick t s.machine.epoch)).1.pending t = [] := hn
  refine ⟨htimer, ?_⟩
  rw [Due, fired, pending_carriedOut, hes, hb, List.append_nil, ← fired, htimer, hm,
    Machine.epoch_timerTick]
  rw [hes, hb]
  split <;> simp

theorem fired_other (h : s.Due t due) {k : PendingTick} {agenda : Agenda}
    (hk : s.agenda.ticks = k :: agenda.ticks) (ht : k.timer ≠ t) :
    (s.fired k agenda).machine.timer t = s.machine.timer t ∧ (s.fired k agenda).Due t due := by
  have hm : (s.fired k agenda).machine = (s.machine.timerTick k.timer k.epoch).1 :=
    machine_fired ..
  have htimer : (s.fired k agenda).machine.timer t = s.machine.timer t := by
    rw [hm]
    exact Machine.timer_timerTick_of_ne (Ne.symm ht) _
  have hes : ((s.machine.timerTick k.timer k.epoch).2.filterMap (Effect.tick? k.due)).filter
      (·.timer = t) = [] := by
    by_cases he : k.epoch = s.machine.epoch
    · rw [he, Machine.filterMap_timerTick rfl]
      split <;> simp [Machine.schedule, Effect.tick?, ht]
    · rw [Machine.timerTick_of_stale he]
      rfl
  have hb : ({ s with agenda }.handled (.timerTick k.timer k.epoch)).1.pending t =
      if (s.machine.timer t).running then [⟨due, t, s.machine.epoch⟩] else [] := by
    rw [← h, pending, pending, hk, List.filter_cons_of_neg (by simp [ht])]
    rfl
  refine ⟨htimer, ?_⟩
  rw [Due, fired, pending_carriedOut, hes, hb, List.nil_append, ← fired, htimer, hm,
    Machine.epoch_timerTick]
  rw [hes, hb]
  split <;> simp

/-- A timer that is started is first due one period after the beginning of the cycle. -/
theorem of_compute (h : s.Due t due) {f : Frontend} {p : Pace}
    (hc : compute f p s = .ok () s') :
    s'.Due t (if (s.machine.timer t).running then due else s.clock + timerPeriod) := by
  obtain ⟨es, he, rfl⟩ := ok_of_compute hc
  have ht : s.machine.tick s.machine.configuration.instructionsPerTick.toNat =
      ((s.machine.handle .cpuTick).1, .ok es) := Prod.ext rfl he
  have hm : (((s.handled .cpuTick).1.carriedOut s.clock es).cycled p.cycleTime).machine =
      (s.machine.handle .cpuTick).1 := machine_carriedOut ..
  have hes := Machine.ticks_of_tick ht s.clock t
  have hb : (s.handled .cpuTick).1.pending t =
      if (s.machine.timer t).running then [⟨due, t, s.machine.epoch⟩] else [] := h
  have hrun := Machine.timer_running_of_tick ht (t := t)
  have hepoch := Machine.epoch_of_tick ht
  change ((s.handled .cpuTick).1.carriedOut s.clock es).pending t = _
  rw [hm, hepoch]
  rw [hepoch] at hes
  cases hr : (s.machine.timer t).running with
  | true =>
    rw [hr, if_neg (by simp)] at hes
    rw [hr, if_pos rfl] at hb
    rw [pending_carriedOut (by rw [hes, hb]; exact Nat.le_refl 1), hes, hb, hrun hr]
    rfl
  | false =>
    rw [hr] at hes hb
    rw [pending_carriedOut (by rw [hes, hb]; split <;> simp), hes, hb]
    simp

end Due

/-- The tick of a timer that runs is due within one period. -/
def Timely (s : Session) (t : Timer) : Prop := ∃ due, s.Due t due ∧ due ≤ s.clock + timerPeriod

namespace Timely

variable {s s' : Session} {t : Timer}

theorem of_calm (h : s.Timely t) (hc : s.Calm s') : s'.Timely t := by
  obtain ⟨due, hd, hle⟩ := h
  exact ⟨due, hd.of_calm hc, hc.clock ▸ hle⟩

/-- The next period is measured from a time that the clock has reached. -/
theorem of_fired (h : s.Timely t) {k : PendingTick} {agenda : Agenda}
    (hp : s.agenda.popDue? s.clock = some (k, agenda)) : (s.fired k agenda).Timely t := by
  obtain ⟨due, hd, hle⟩ := h
  obtain ⟨hk, hdue⟩ := Agenda.ticks_of_popDue? hp
  by_cases ht : k.timer = t
  · obtain ⟨_, rfl, _⟩ := hd.popped hk ht
    refine ⟨_, (hd.fired_self hk ht).2, ?_⟩
    rw [clock_fired]
    exact Nat.add_le_add_right hdue _
  · exact ⟨due, (hd.fired_other hk ht).2, by rwa [clock_fired]⟩

theorem of_drained (h : s.Timely t) (n : Nat) : (s.drained n).Timely t :=
  drained_induction (P := fun s' => s'.Timely t) (fun _ _ _ hp ht => ht.of_fired hp) n h

theorem of_compute (h : s.Timely t) {f : Frontend} {p : Pace} (hc : compute f p s = .ok () s') :
    s'.Timely t := by
  obtain ⟨due, hd, hle⟩ := h
  refine ⟨_, hd.of_compute hc, ?_⟩
  rw [clock_of_compute hc]
  split <;> omega

end Timely

theorem beeps_of_compute {f : Frontend} {p : Pace} {s s' : Session}
    (h : compute f p s = .ok () s') : s'.beeps = s.beeps := by
  obtain ⟨es, he, rfl⟩ := ok_of_compute h
  have ht : s.machine.tick s.machine.configuration.instructionsPerTick.toNat =
      ((s.machine.handle .cpuTick).1, .ok es) := Prod.ext rfl he
  have hz := List.count_eq_zero.mpr (Machine.playSound_notMem_of_tick ht)
  have hb : (s.handled .cpuTick).1.beeps = s.beeps := congrArg (List.count _) (calls_handled ..)
  change ((s.handled .cpuTick).1.carriedOut s.clock es).beeps = _
  rw [beeps_carriedOut, hz, hb, Nat.add_zero]

end Session

namespace Run.Fresh

variable {r : Run} {j : Nat} {s : Session}

theorem timely_begins (h : r.Fresh) (hb : r.Begins j s) (t : Timer) : s.Timely t := by
  induction j generalizing s with
  | zero =>
    obtain ⟨hi, ha, _⟩ := h.begins hb
    refine ⟨0, ?_, Nat.zero_le _⟩
    rw [Session.Due, Session.pending, ha, hi]
    rfl
  | succ j ih =>
    obtain ⟨b, hr, hc⟩ := hb.ready
    obtain ⟨u, hu, rfl⟩ := hr.polled
    obtain ⟨s₀, hs, calm⟩ := hu.calm
    exact (((ih hs).of_calm calm).of_drained u.dueBound).of_compute hc

theorem timely_ready (h : r.Fresh) (hr : r.Ready j s) (t : Timer) : s.Timely t := by
  obtain ⟨u, hu, rfl⟩ := hr.polled
  obtain ⟨s₀, hs, calm⟩ := hu.calm
  exact ((h.timely_begins hs t).of_calm calm).of_drained u.dueBound

/-- Whenever a run is about to execute instructions, its agenda holds a tick for exactly the timers
that run. -/
theorem due_ready (h : r.Fresh) (hr : r.Ready j s) (t : Timer) : ∃ due, s.Due t due := by
  obtain ⟨due, hd, _⟩ := h.timely_ready hr t
  exact ⟨due, hd⟩

end Run.Fresh
end Chip8
