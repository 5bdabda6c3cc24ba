import Chip8.Proofs.Batch

/-! # Effects

The frames and the schedulings among the effects of an event, and those of a tick that completes:
at most one frame, the screen as it is afterwards, and then one scheduling for every timer that the
tick has started. -/
namespace Chip8

namespace Effect

def frame? : Effect → Option Screen
  | render frame => some frame
  | _ => none

def isScheduling : Effect → Bool
  | schedule .. => true
  | _ => false

def timer? : Effect → Option Timer
  | schedule t .. => some t
  | _ => none

end Effect

def frames (es : List Effect) : List Screen := es.filterMap Effect.frame?

def schedulings (es : List Effect) : List Effect := es.filter Effect.isScheduling

theorem frames_append (es es' : List Effect) : frames (es ++ es') = frames es ++ frames es' :=
  List.filterMap_append

theorem schedulings_append (es es' : List Effect) :
    schedulings (es ++ es') = schedulings es ++ schedulings es' :=
  List.filter_append es es'

theorem frames_schedulings (es : List Effect) : frames (schedulings es) = [] := by
  apply List.filterMap_eq_nil_iff.mpr
  intro e he
  have hs := (List.mem_filter.mp he).2
  cases e with
  | schedule => rfl
  | _ => cases hs

namespace Machine

/-- The effects of a tick that completes, for the timers that were at `before` when it began. -/
def effectsSince (m : Machine) (before : Timers) : List Effect :=
  m.renderings ++ (m.startedTimers before).map m.schedule

theorem tick_of_running {m : Machine} (h : m.mode = .running) (n : Nat) :
    m.tick n =
      match batch n (m.withDrawFlag false) with
      | (m', some fault) => (m', .error fault)
      | (m', none) => (m', .ok (m'.effectsSince m.state.timers)) := by
  rw [tick, if_pos h]
  rfl

/-- A tick of one instruction does what its step does. -/
theorem tick_one_of_running {m : Machine} (h : m.mode = .running) :
    m.tick 1 =
      match (m.withDrawFlag false).step with
      | .ok m' => (m', .ok (m'.effectsSince m.state.timers))
      | .error fault => ((m.withDrawFlag false).failed, .error fault) := by
  have hr : (m.withDrawFlag false).mode = .running := h
  rw [tick_of_running h, batch, if_pos hr]
  cases (m.withDrawFlag false).step <;> rfl

theorem frames_renderings (m : Machine) :
    frames m.renderings = if m.state.drawFlag then [m.state.screen] else [] := by
  unfold renderings
  split <;> rfl

theorem frames_schedules (m : Machine) (ts : List Timer) : frames (ts.map m.schedule) = [] := by
  induction ts with
  | nil => rfl
  | cons t ts ih => exact ih

theorem schedulings_renderings (m : Machine) : schedulings m.renderings = [] := by
  unfold renderings
  split <;> rfl

theorem schedulings_schedules (m : Machine) (ts : List Timer) :
    schedulings (ts.map m.schedule) = ts.map m.schedule := by
  apply List.filter_eq_self.mpr
  intro e he
  obtain ⟨t, _, rfl⟩ := List.mem_map.mp he
  rfl

theorem frames_effectsSince (m : Machine) (before : Timers) :
    frames (m.effectsSince before) = if m.state.drawFlag then [m.state.screen] else [] := by
  rw [effectsSince, frames_append, frames_schedules, List.append_nil, frames_renderings]

theorem schedulings_effectsSince (m : Machine) (before : Timers) :
    schedulings (m.effectsSince before) = (m.startedTimers before).map m.schedule := by
  rw [effectsSince, schedulings_append, schedulings_renderings, schedulings_schedules]
  rfl

theorem playSound_notMem_effectsSince (m : Machine) (before : Timers) :
    .playSound ∉ m.effectsSince before := by
  rw [effectsSince, renderings]
  split <;> simp [schedule]

theorem effectsSince_eq (m : Machine) (before : Timers) :
    m.effectsSince before =
      (frames (m.effectsSince before)).map .render ++ schedulings (m.effectsSince before) := by
  rw [frames_effectsSince, schedulings_effectsSince, effectsSince, renderings]
  split <;> rfl

/-- All that a completed tick asks for but a frame comes from the timers it has started. -/
theorem filterMap_effectsSince {α : Type} {g : Effect → Option α}
    (hg : ∀ frame, g (.render frame) = none) (m : Machine) (before : Timers) :
    (m.effectsSince before).filterMap g =
      (m.startedTimers before).filterMap fun t => g (m.schedule t) := by
  have hr : m.renderings.filterMap g = [] := by
    unfold renderings
    split
    · simp [hg]
    · rfl
  rw [effectsSince, List.filterMap_append, hr, List.filterMap_map]
  rfl

theorem timers_effectsSince (m : Machine) (before : Timers) :
    (m.effectsSince before).filterMap Effect.timer? = m.startedTimers before := by
  rw [filterMap_effectsSince fun _ => rfl]
  exact List.filterMap_some

/-- A timer has started when it runs now and did not before. -/
theorem mem_startedTimers {m : Machine} {before : Timers} {t : Timer} :
    t ∈ m.startedTimers before ↔
      (before.get t).running = false ∧ (m.state.timers.get t).running = true := by
  have hall : t ∈ Timer.all := by cases t <;> decide
  simp [startedTimers, hall]

/-- A timer starts at most once. -/
theorem filter_startedTimers (m : Machine) (before : Timers) (t : Timer) :
    (m.startedTimers before).filter (· = t) =
      if (before.get t).running = false ∧ (m.state.timers.get t).running = true then [t] else [] := by
  have hall : Timer.all.filter (· = t) = [t] := by cases t <;> rfl
  rw [startedTimers, List.filter_filter]
  simp only [Bool.and_comm (decide _)]
  rw [← List.filter_filter, hall]
  simp [List.filter_cons]

theorem nodup_startedTimers (m : Machine) (before : Timers) : (m.startedTimers before).Nodup :=
  List.Nodup.sublist List.filter_sublist (by decide)

namespace Completes

variable {m m' : Machine} {n : Nat}

theorem epoch (h : Completes m n m') : m'.epoch = m.epoch := h.path.epoch

theorem timer_running (h : Completes m n m') {t : Timer}
    (hr : (m.state.timers.get t).running = true) : (m'.state.timers.get t).running = true :=
  h.path.timer_running hr

theorem effects_eq (h : Completes m n m') {es : List Effect} (ht : m.tick n = (m', .ok es)) :
    es = m'.effectsSince m.state.timers := by
  have he := congrArg Prod.snd (ht.symm.trans h.tick_eq)
  exact Except.ok.inj he

end Completes

end Machine
end Chip8
