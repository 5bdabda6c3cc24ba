import Chip8.Proofs.Frames
import Chip8.Proofs.Traces

/-! # Turns

One cycle of a session, told by its occurrences: a poll and the keys that it answers, the timer
phase, a batch of instructions and a frame if there is a new one. A session can end on the way at
the limit, by a quit, by a fault or by a frame that is not shown. -/
namespace Chip8

def Input.event? : Input → Option Event
  | keyDown key => some (.keyDown key)
  | keyUp key => some (.keyUp key)
  | quit => none

/-- The events of the keys in front of a quit. -/
def keys (inputs : List Input) : List Event :=
  (inputs.takeWhile (· ≠ .quit)).filterMap Input.event?

theorem eq_of_mem_keys {inputs : List Input} {e : Event} (h : e ∈ keys inputs) :
    ∃ key, e = .keyDown key ∨ e = .keyUp key := by
  obtain ⟨i, _, hi⟩ := List.mem_filterMap.mp h
  cases i with
  | keyDown key => exact ⟨key, .inl (Option.some.inj hi).symm⟩
  | keyUp key => exact ⟨key, .inr (Option.some.inj hi).symm⟩
  | quit => cases hi

/-- A poll and what the machine is given because of it. -/
def answered (inputs : List Input) : List Occurrence := .call .poll :: (keys inputs).map .event

/-- A beep if the tick takes a unit off the sound timer. -/
def Machine.chime (m : Machine) (t : Timer) (epoch : UInt32) : List Occurrence :=
  if ((m.handle (.timerTick t epoch)).1.timer .sound).value < (m.timer .sound).value then
    [.call .beep]
  else []

/-- Timer ticks one after another, each with its beep. -/
inductive TimerPhase : Machine → List Occurrence → Prop
  | done (m : Machine) : TimerPhase m []
  | tick {m : Machine} {os : List Occurrence} (t : Timer) (epoch : UInt32)
      (rest : TimerPhase (m.handle (.timerTick t epoch)).1 os) :
      TimerPhase m (.event (.timerTick t epoch) :: m.chime t epoch ++ os)

/-- A cycle up to its batch, if it gets there. -/
inductive Opening (inputs : List Input) (m : Machine) : List Occurrence → Prop
  | of_phase {ticks : List Occurrence} (stays : .quit ∉ inputs)
      (phase : TimerPhase (m.replay (answered inputs)) ticks) :
      Opening inputs m (answered inputs ++ ticks)

def Pace.Reached (p : Pace) (cycles : Nat) : Prop := ∃ n, p.cycleLimit = some n ∧ n ≤ cycles

/-- One cycle, which ends the session if there is an exit. -/
inductive Turn (f : Frontend) (p : Pace) (s : Session) : List Occurrence → Option Exit → Prop
  | limit (reached : p.Reached s.cycles) : Turn f p s [] (some .limit)
  | quit (below : ¬ p.Reached s.cycles) (quits : .quit ∈ f.inputs (s.polls + 1)) :
      Turn f p s (answered (f.inputs (s.polls + 1))) (some .quit)
  | halted {os : List Occurrence} {fault : Fault} (below : ¬ p.Reached s.cycles)
      (opening : Opening (f.inputs (s.polls + 1)) s.machine os)
      (fails : ((s.machine.replay os).handle .cpuTick).2 = .error fault) :
      Turn f p s (os ++ [.event .cpuTick]) (some (.halted fault))
  | renderFailed {os : List Occurrence} {es : List Effect} {frame : Screen} {reason : String}
      (below : ¬ p.Reached s.cycles) (opening : Opening (f.inputs (s.polls + 1)) s.machine os)
      (answers : ((s.machine.replay os).handle .cpuTick).2 = .ok es) (shows : frames es = [frame])
      (fails : f.renderFault (s.renders + 1) = some reason) :
      Turn f p s (os ++ [.event .cpuTick, showing frame]) (some (.renderFailed reason))
  | completed {os : List Occurrence} {es : List Effect} (below : ¬ p.Reached s.cycles)
      (opening : Opening (f.inputs (s.polls + 1)) s.machine os)
      (answers : ((s.machine.replay os).handle .cpuTick).2 = .ok es)
      (single : (frames es).length ≤ 1)
      (shown : frames es ≠ [] → f.renderFault (s.renders + 1) = none) :
      Turn f p s (os ++ .event .cpuTick :: (frames es).map showing) none

/-- A beep, a key or a timer tick. -/
def Occurrence.isMinor : Occurrence → Bool
  | call .beep | event (.keyDown _) | event (.keyUp _) | event (.timerTick ..) => true
  | _ => false

theorem shown_of_minor {os : List Occurrence} (h : ∀ o ∈ os, o.isMinor = true) : shown os = [] := by
  apply List.filterMap_eq_nil_iff.mpr
  intro o ho
  have hm := h o ho
  cases o with
  | event => rfl
  | call c =>
    cases c with
    | beep => rfl
    | _ => cases hm

theorem count_minor {os : List Occurrence} (h : ∀ o ∈ os, o.isMinor = true) {o : Occurrence}
    (ho : o.isMinor = false) : os.count o = 0 := by
  apply List.count_eq_zero.mpr
  intro hm
  rw [h o hm] at ho
  cases ho

theorem minor_keys (inputs : List Input) :
    ∀ o ∈ (keys inputs).map Occurrence.event, o.isMinor = true := by
  intro o ho
  obtain ⟨e, he, rfl⟩ := List.mem_map.mp ho
  obtain ⟨_, rfl | rfl⟩ := eq_of_mem_keys he <;> rfl

theorem TimerPhase.minor {m : Machine} {os : List Occurrence} (h : TimerPhase m os) :
    ∀ o ∈ os, o.isMinor = true := by
  induction h with
  | done => simp
  | @tick m os t epoch _ ih =>
    intro o ho
    rcases List.mem_append.mp ho with ho | ho
    · rcases List.mem_cons.mp ho with rfl | ho
      · rfl
      · unfold Machine.chime at ho
        split at ho
        · rw [List.mem_singleton.mp ho]
          rfl
        · cases ho
    · exact ih o ho

/-- A poll with nothing after it but keys, timer ticks and beeps. -/
def Polling (os : List Occurrence) : Prop :=
  ∃ rest, os = .call .poll :: rest ∧ ∀ o ∈ rest, o.isMinor = true

theorem polling_answered (inputs : List Input) : Polling (answered inputs) :=
  ⟨_, rfl, minor_keys inputs⟩

theorem Opening.polling {inputs : List Input} {m : Machine} {os : List Occurrence}
    (h : Opening inputs m os) : Polling os := by
  obtain ⟨_, phase⟩ := h
  refine ⟨_, rfl, fun o ho => ?_⟩
  rcases List.mem_append.mp ho with ho | ho
  · exact minor_keys inputs o ho
  · exact phase.minor o ho

theorem Polling.shown_eq {os : List Occurrence} (h : Polling os) : shown os = [] := by
  obtain ⟨rest, rfl, hr⟩ := h
  change shown rest = []
  exact shown_of_minor hr

theorem Polling.pollCount_eq {os : List Occurrence} (h : Polling os) : pollCount os = 1 := by
  obtain ⟨rest, rfl, hr⟩ := h
  rw [pollCount, List.count_cons_self, count_minor hr rfl]

theorem Polling.batchCount_eq {os : List Occurrence} (h : Polling os) : batchCount os = 0 := by
  obtain ⟨rest, rfl, hr⟩ := h
  exact count_minor hr rfl

namespace Machine

theorem occurrences_timerTick (m : Machine) (t : Timer) (epoch : UInt32) :
    (m.timerTick t epoch).2.filterMap Effect.occurrence? = m.chime t epoch := by
  by_cases he : epoch = m.epoch
  · subst he
    have hc := m.count_playSound_add t m.epoch
    have hr : (m.reschedules t).filterMap Effect.occurrence? = [] := by
      unfold reschedules
      split <;> rfl
    have hv : ((m.handle (.timerTick t m.epoch)).1.timer .sound).value <
        (m.timer .sound).value ↔ 0 < (m.sounds t).length := by
      rw [count_playSound_timerTick] at hc
      rw [UInt8.lt_iff_toNat_lt, ← hc]
      exact Nat.lt_add_left_iff_pos
    rw [effects_timerTick, List.filterMap_append, hr, List.append_nil, chime, sounds]
    simp only [hv, sounds]
    split <;> rfl
  · have hs : (m.handle (.timerTick t epoch)).1 = m := congrArg Prod.fst (timerTick_of_stale he t)
    rw [timerTick_of_stale he, chime, hs, if_neg (UInt8.lt_irrefl _)]
    rfl

/-- What a batch asks of the frontend is to show its frames. -/
theorem occurrences_of_tick {m m' : Machine} {n : Nat} {es : List Effect}
    (h : m.tick n = (m', .ok es)) :
    es.filterMap Effect.occurrence? = (frames es).map showing := by
  have hf : ∀ fs : List Screen, (fs.map Effect.render).filterMap Effect.occurrence? =
      fs.map showing := by
    intro fs
    rw [List.filterMap_map]
    exact congrFun List.filterMap_eq_map fs
  have hs : (schedulings es).filterMap Effect.occurrence? = [] := by
    apply List.filterMap_eq_nil_iff.mpr
    intro e he
    have he := (List.mem_filter.mp he).2
    cases e with
    | schedule => rfl
    | _ => cases he
  calc es.filterMap Effect.occurrence?
      = ((frames es).map Effect.render ++ schedulings es).filterMap Effect.occurrence? :=
        congrArg _ (effects_of_tick h)
    _ = (frames es).map showing := by rw [List.filterMap_append, hf, hs, List.append_nil]

end Machine

variable {f : Frontend} {p : Pace} {s : Session}

namespace Turn

variable {os : List Occurrence} {exit : Option Exit}

theorem below (h : Turn f p s os exit) (hne : exit ≠ some .limit) : ¬ p.Reached s.cycles := by
  cases h with
  | limit => exact absurd rfl hne
  | quit below _ => exact below
  | halted below _ _ => exact below
  | renderFailed below _ _ _ _ => exact below
  | completed below _ _ _ _ => exact below

theorem pollCount_eq (h : Turn f p s os exit) :
    pollCount os = if exit = some .limit then 0 else 1 := by
  cases h with
  | limit => rfl
  | quit => exact (polling_answered _).pollCount_eq
  | halted _ opening => rw [pollCount_append, opening.polling.pollCount_eq]; rfl
  | renderFailed _ opening => rw [pollCount_append, opening.polling.pollCount_eq]; rfl
  | @completed _ es _ opening =>
    have hs : pollCount (.event .cpuTick :: (frames es).map showing) = 0 := count_showing rfl _
    rw [pollCount_append, opening.polling.pollCount_eq, hs]
    rfl

theorem batchCount_eq (h : Turn f p s os exit) :
    batchCount os = if exit = some .limit ∨ exit = some .quit then 0 else 1 := by
  cases h with
  | limit => rfl
  | quit => exact (polling_answered _).batchCount_eq
  | halted _ opening => rw [batchCount_append, opening.polling.batchCount_eq]; rfl
  | renderFailed _ opening => rw [batchCount_append, opening.polling.batchCount_eq]; rfl
  | @completed _ es _ opening =>
    have hs : batchCount (.event .cpuTick :: (frames es).map showing) = 1 := by
      rw [batchCount, List.count_cons_self, count_showing rfl]
    rw [batchCount_append, opening.polling.batchCount_eq, hs]
    rfl

theorem polls (h : Turn f p s os exit) :
    pollCount os = batchCount os + if exit = some .quit then 1 else 0 := by
  rw [h.pollCount_eq, h.batchCount_eq]
  by_cases hl : exit = some .limit
  · simp [hl]
  · by_cases hq : exit = some .quit
    · simp [hq]
    · simp [hl, hq]

end Turn

namespace Session

open SessionM

/-- The session after the keys in front of a quit. -/
def fed (inputs : List Input) (s : Session) : Session :=
  (keys inputs).foldl (fun s e => (s.handled e).1) s

theorem cycles_fed (inputs : List Input) (s : Session) : (s.fed inputs).cycles = s.cycles := by
  unfold fed
  induction keys inputs generalizing s with
  | nil => rfl
  | cons e es ih => exact ih _

theorem runs_answer_key {f : Frontend} {e : Event} {s : Session}
    (h : (s.machine.handle e).2 = .ok []) :
    Runs (answer f e) s [.event e] none (s.handled e).1 where
  result := bind_of_ok (deliver_of_ok h) _
  leads := .of_handled e s

/-- No key fails, so only a quit keeps the inputs from being used up. -/
theorem runs_feed (f : Frontend) (inputs : List Input) (s : Session) :
    Runs (feed f inputs) s ((keys inputs).map .event)
      (if .quit ∈ inputs then some .quit else none) (s.fed inputs) := by
  induction inputs generalizing s with
  | nil => exact ⟨rfl, .refl s⟩
  | cons i inputs ih =>
    cases i with
    | quit => exact ⟨by simp; rfl, .refl s⟩
    | keyDown key =>
      have hk : Runs (answer f (.keyDown key)) s [.event (.keyDown key)] none
          (s.handled (.keyDown key)).1 := runs_answer_key rfl
      have hq : (Input.quit ∈ Input.keyDown key :: inputs) = (.quit ∈ inputs) := by simp
      simp only [hq]
      exact hk.bind (ih _)
    | keyUp key =>
      have hk : Runs (answer f (.keyUp key)) s [.event (.keyUp key)] none
          (s.handled (.keyUp key)).1 := runs_answer_key rfl
      have hq : (Input.quit ∈ Input.keyUp key :: inputs) = (.quit ∈ inputs) := by simp
      simp only [hq]
      exact hk.bind (ih _)

theorem runs_poll (f : Frontend) (s : Session) :
    Runs (poll f) s (answered (f.inputs (s.polls + 1)))
      (if .quit ∈ f.inputs (s.polls + 1) then some .quit else none)
      (s.polled.fed (f.inputs (s.polls + 1))) := by
  have hp : poll f s = feed f (f.inputs (s.polls + 1)) s.polled := rfl
  have hf := runs_feed f (f.inputs (s.polls + 1)) s.polled
  exact ⟨hp.trans hf.result, (Leads.of_polled s).trans hf.leads⟩

theorem phase_drained (n : Nat) (s : Session) :
    ∃ os, TimerPhase s.machine os ∧ s.Leads os (s.drained n) := by
  induction n generalizing s with
  | zero => exact ⟨[], .done _, .refl s⟩
  | succ n ih =>
    unfold drained
    split
    next => exact ⟨[], .done _, .refl s⟩
    next k agenda hp =>
      obtain ⟨os, hos, hl⟩ := ih (s.fired k agenda)
      have hf := Leads.of_fired s k agenda
      rw [Machine.occurrences_timerTick] at hf
      rw [machine_fired] at hos
      exact ⟨_, .tick k.timer k.epoch hos, hf.trans hl⟩

theorem runs_drainDue (f : Frontend) (s : Session) :
    ∃ os, TimerPhase s.machine os ∧ Runs (drainDue f) s os none (s.drained s.dueBound) := by
  obtain ⟨os, hos, hl⟩ := phase_drained s.dueBound s
  exact ⟨os, hos, drainDue_eq f s, hl⟩

theorem runs_compute_of_fault {fault : Fault}
    (h : (s.machine.handle .cpuTick).2 = .error fault) :
    Runs (compute f p) s [.event .cpuTick] (some (.halted fault)) (s.handled .cpuTick).1 where
  result := by
    have ha : answer f .cpuTick s = .error (.halted fault) (s.handled .cpuTick).1 :=
      bind_of_error (deliver_of_error h) _
    exact bind_of_error ha _
  leads := .of_handled _ s

theorem runs_compute_of_renderFault {es : List Effect} {frame : Screen} {reason : String}
    (h : (s.machine.handle .cpuTick).2 = .ok es) (shows : frames es = [frame])
    (fails : f.renderFault (s.renders + 1) = some reason) :
    Runs (compute f p) s [.event .cpuTick, showing frame] (some (.renderFailed reason))
      ((s.handled .cpuTick).1.rendered frame) where
  result := by
    have hes := Machine.effects_of_tick (Prod.ext rfl h)
    have hr : f.renderFault ((s.handled .cpuTick).1.renders + 1) = some reason := fails
    rw [shows] at hes
    have ha : answer f .cpuTick s = .error (.renderFailed reason)
        ((s.handled .cpuTick).1.rendered frame) := by
      rw [answer_of_ok h, hes]
      exact dispatch_of_fault hr ..
    exact bind_of_error ha _
  leads := (Leads.of_handled _ s).trans (.of_rendered frame _)

theorem runs_compute_of_shown {es : List Effect}
    (h : (s.machine.handle .cpuTick).2 = .ok es)
    (shown : frames es ≠ [] → f.renderFault (s.renders + 1) = none) :
    Runs (compute f p) s (.event .cpuTick :: (frames es).map showing) none
      (((s.handled .cpuTick).1.carriedOut s.clock es).cycled p.cycleTime) where
  result := by
    have ha : answer f .cpuTick s = .ok () ((s.handled .cpuTick).1.carriedOut s.clock es) := by
      have hes := Machine.effects_of_tick (Prod.ext rfl h)
      rw [answer_of_ok h]
      rcases Machine.shows_of_tick (Prod.ext rfl h) with ⟨hf, _⟩ | hf
      · exact dispatch_of_frames hf ..
      · have hr : f.renderFault ((s.handled .cpuTick).1.renders + 1) = none :=
          shown (by simp [hf])
        rw [hf] at hes
        rw [hes]
        exact dispatch_of_shown (frames_schedulings es) hr ..
    exact bind_of_ok ha _
  leads := by
    have hl := Leads.of_carriedOut s.clock es (s.handled .cpuTick).1
    rw [Machine.occurrences_of_tick (Prod.ext rfl h)] at hl
    have hc := ((Leads.of_handled _ s).trans hl).trans (.of_cycled p.cycleTime _)
    rwa [List.append_nil] at hc

theorem runs_checkLimit_of_reached (h : p.Reached s.cycles) :
    Runs (checkLimit p) s [] (some .limit) s where
  result := by
    obtain ⟨n, hn, hle⟩ := h
    rw [checkLimit, bind_of_ok (get_eq s), hn, Option.any_some, decide_eq_true hle]
    rfl
  leads := .refl s

theorem runs_checkLimit (h : ¬ p.Reached s.cycles) : Runs (checkLimit p) s [] none s where
  result := by
    have hn : p.cycleLimit.any (· ≤ s.cycles) = false := by
      cases hl : p.cycleLimit with
      | none => rfl
      | some n => exact decide_eq_false fun hle => h ⟨n, hl, hle⟩
    rw [checkLimit, bind_of_ok (get_eq s), hn]
    rfl
  leads := .refl s

theorem runs_prepare (below : ¬ p.Reached s.cycles) (stays : .quit ∉ f.inputs (s.polls + 1)) :
    ∃ os s', Opening (f.inputs (s.polls + 1)) s.machine os ∧ Runs (prepare f p) s os none s' ∧
      s'.cycles = s.cycles := by
  have hp := runs_poll f s
  rw [if_neg stays] at hp
  obtain ⟨ticks, phase, hd⟩ := runs_drainDue f (s.polled.fed (f.inputs (s.polls + 1)))
  rw [hp.leads.machine] at phase
  exact ⟨_, _, .of_phase stays phase, (runs_checkLimit below).bind (hp.bind hd),
    (cycles_drained ..).trans (cycles_fed ..)⟩

/-- Every cycle is a turn. -/
theorem runs_cycle (f : Frontend) (p : Pace) (s : Session) :
    ∃ os exit s', Turn f p s os exit ∧ Runs (cycle f p) s os exit s' ∧
      (exit = none → s'.cycles = s.cycles + 1) := by
  by_cases hr : p.Reached s.cycles
  · exact ⟨_, _, _, .limit hr, ((runs_checkLimit_of_reached hr).stop _).stop _, nofun⟩
  by_cases hq : .quit ∈ f.inputs (s.polls + 1)
  · have hp := runs_poll f s
    rw [if_pos hq] at hp
    exact ⟨_, _, _, .quit hr hq, ((runs_checkLimit hr).bind (hp.stop _)).stop _, nofun⟩
  obtain ⟨os, u, opening, hp, hc⟩ := runs_prepare hr hq
  have hm := hp.leads.machine
  have hn : u.renders = s.renders := by rw [hp.leads.renders, opening.polling.shown_eq]; rfl
  cases ha : (u.machine.handle .cpuTick).2 with
  | error fault =>
    exact ⟨_, _, _, .halted hr opening (hm ▸ ha), hp.bind (runs_compute_of_fault ha), nofun⟩
  | ok es =>
    have hs := Machine.shows_of_tick (Prod.ext rfl ha)
    by_cases hf : frames es ≠ [] → f.renderFault (s.renders + 1) = none
    · exact ⟨_, _, _, .completed hr opening (hm ▸ ha) hs.length_le hf,
        hp.bind (runs_compute_of_shown ha (hn ▸ hf)),
        fun _ => congrArg (· + 1) ((cycles_carriedOut ..).trans hc)⟩
    · obtain ⟨hne, hnone⟩ := Classical.not_imp.mp hf
      obtain ⟨reason, fails⟩ := Option.ne_none_iff_exists'.mp hnone
      have shows := hs.resolve_left fun h => hne h.1
      exact ⟨_, _, _, .renderFailed hr opening (hm ▸ ha) shows fails,
        hp.bind (runs_compute_of_renderFault ha shows (hn ▸ fails)), nofun⟩

end Session
end Chip8
