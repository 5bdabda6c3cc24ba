import Chip8.Proofs.Calls
import Chip8.Proofs.KeyCapture

/-! # Machines at rest

A machine that is stopped or halted keeps all but its keys and timers until it is told of another
program. The mode of a machine moves in a few ways only: by a program, by a wait for a key and the
press that ends it, and by a fault. -/
namespace Chip8

/-- Whether the stimulus has instructions executed. -/
def Stimulus.isTick : Stimulus → Bool
  | .event .cpuTick | .tick _ => true
  | .event _ => false

namespace Machine

variable {m m' : Machine} {s : Stimulus}

def AtRest (m : Machine) : Prop := m.mode = .stopped ∨ m.mode = .halted

theorem AtRest.not_running (h : m.AtRest) : m.mode ≠ .running := by
  rcases h with h | h <;> rw [h] <;> decide

theorem respond_of_isTick (h : m.mode ≠ .running) (hs : s.isTick = true) :
    m.respond s = (m, .ok []) := by
  cases s with
  | tick n => exact tick_of_not_running h n
  | event e =>
    cases e with
    | cpuTick => exact tick_of_not_running h _
    | _ => cases hs

/-- The machine at rest `m` has become `m'`. -/
structure Rested (m m' : Machine) : Prop where
  eq : ∃ keypad timers, m' = { m with state := { m.state with keypad, timers } }
  waiting : m'.state.keypad.waiting = none

namespace Rested

variable {m₁ : Machine}

theorem atRest (h : Rested m m') (hm : m.AtRest) : m'.AtRest := by
  obtain ⟨_, _, rfl⟩ := h.eq
  exact hm

theorem trans (h : Rested m m₁) (h' : Rested m₁ m') : Rested m m' := by
  obtain ⟨_, _, rfl⟩ := h.eq
  obtain ⟨keypad, timers, rfl⟩ := h'.eq
  exact ⟨⟨keypad, timers, rfl⟩, h'.waiting⟩

/-- No key is captured, since none is waited for. -/
theorem keyDown (hw : m.state.keypad.waiting = none) (key : Key) : Rested m (m.keyDown key) := by
  unfold Machine.keyDown Keypad.press
  rw [hw]
  exact ⟨⟨_, m.state.timers, rfl⟩, rfl⟩

theorem respond (hm : m.AtRest) (hw : m.state.keypad.waiting = none) (hs : s.isLoad = false) :
    Rested m (m.respond s).1 := by
  have refl : Rested m m := ⟨⟨m.state.keypad, m.state.timers, rfl⟩, hw⟩
  cases s with
  | tick n =>
    rw [respond_of_isTick hm.not_running rfl]
    exact refl
  | event e =>
    cases e with
    | cpuTick =>
      rw [respond_of_isTick hm.not_running rfl]
      exact refl
    | timerTick t epoch =>
      obtain ⟨timers, ht⟩ := m.timerTick_frame t epoch
      change Rested m (m.timerTick t epoch).1
      rw [ht]
      exact ⟨⟨m.state.keypad, timers, rfl⟩, hw⟩
    | keyDown key => exact keyDown hw _
    | keyUp key => exact ⟨⟨_, m.state.timers, rfl⟩, hw⟩
    | _ => cases hs

end Rested

theorem ok_of_respond (hm : m.AtRest) (hs : s.isLoad = false) :
    ∃ es, (m.respond s).2 = .ok es ∧ frames es = [] := by
  cases s with
  | tick n =>
    rw [respond_of_isTick hm.not_running rfl]
    exact ⟨[], rfl, rfl⟩
  | event e =>
    cases e with
    | cpuTick =>
      rw [respond_of_isTick hm.not_running rfl]
      exact ⟨[], rfl, rfl⟩
    | timerTick t epoch => exact ⟨_, rfl, m.frames_timerTick t epoch⟩
    | keyDown key | keyUp key => exact ⟨[], rfl, rfl⟩
    | _ => cases hs

/-- What a machine at rest does about the stimuli: only its keys and timers change, no instruction
is executed, nothing fails and no frame is shown. -/
structure Rests (m : Machine) (ss : List Stimulus) : Prop where
  frame : ∃ keypad timers, m.after ss = { m with state := { m.state with keypad, timers } }
  ticks : ∀ earlier s later, ss = earlier ++ s :: later → s.isTick = true →
    (m.after earlier).respond s = (m.after earlier, .ok [])
  answers : ∀ r ∈ m.answers ss, ∃ es, r = .ok es ∧ frames es = []

theorem Rests.registers {ss : List Stimulus} (h : m.Rests ss) :
    (m.after ss).state.registers = m.state.registers := by
  obtain ⟨_, _, he⟩ := h.frame
  rw [he]

theorem AtRest.rests (hm : m.AtRest) (hw : m.state.keypad.waiting = none) {ss : List Stimulus}
    (hs : ∀ s ∈ ss, s.isLoad = false) : m.Rests ss := by
  induction ss generalizing m with
  | nil =>
    refine ⟨⟨m.state.keypad, m.state.timers, rfl⟩, fun earlier s later he => ?_, nofun⟩
    cases earlier <;> cases he
  | cons s ss ih =>
    have hhead : s.isLoad = false := hs s List.mem_cons_self
    have hstep := Rested.respond hm hw hhead
    have hrest := ih (hstep.atRest hm) hstep.waiting fun u hu => hs u (List.mem_cons_of_mem _ hu)
    refine ⟨?_, fun earlier u later he hu => ?_, fun r hr => ?_⟩
    · obtain ⟨_, _, h₁⟩ := hstep.eq
      obtain ⟨keypad, timers, h₂⟩ := hrest.frame
      refine ⟨keypad, timers, h₂.trans ?_⟩
      rw [h₁]
    · cases earlier with
      | nil =>
        cases he
        exact respond_of_isTick hm.not_running hu
      | cons v earlier =>
        obtain ⟨rfl, rfl⟩ := List.cons.inj he
        exact hrest.ticks earlier u later rfl hu
    · rcases List.mem_cons.mp hr with rfl | hr
      · exact ok_of_respond hm hhead
      · exact hrest.answers r hr

/-! ## Moves -/

/-- The stimulus takes the machine into the given mode. -/
inductive Moves (m : Machine) (s : Stimulus) : Mode → Prop
  | loaded {es : List Effect} (load : s.isLoad = true) (accepts : (m.respond s).2 = .ok es) :
      Moves m s .running
  | refused {fault : Fault} (load : s.isLoad = true) (refuses : (m.respond s).2 = .error fault) :
      Moves m s .stopped
  | pressed {key : UInt8} (press : s = .event (.keyDown key)) (awaits : m.mode = .awaitingKey) :
      Moves m s .running
  | awaited {w : Opcode} {x : Register} (runs : m.mode = .running)
      (last : (m.executed s).getLast? = some w) (waits : Opcode.IsKeyWait x w) :
      Moves m s .awaitingKey
  | failed {fault : Fault} (runs : m.mode = .running) (tick : s.isTick = true)
      (fails : (m.respond s).2 = .error fault) : Moves m s .halted

/-- Instructions that succeed keep a machine running, up to one that waits for a key. -/
theorem Path.mode_cases {ws : List Opcode} (h : Path m ws m') (hr : m.mode = .running) :
    m'.mode = .running ∨
      m'.mode = .awaitingKey ∧ ∃ w x, ws.getLast? = some w ∧ Opcode.IsKeyWait x w := by
  induction h with
  | nil => exact .inl hr
  | @cons m m₁ _ ws _ hs rest ih =>
    have hmode : m₁.mode = _ := (footprint_of_step hs).mode
    cases ha : (Opcode.meaning m.fetched).awaits? with
    | none =>
      rw [ha] at hmode
      rcases ih (hmode.trans hr) with hrun | ⟨hwait, w, x, hl, hk⟩
      · exact .inl hrun
      · refine .inr ⟨hwait, w, x, ?_, hk⟩
        rw [List.getLast?_cons, hl]
        rfl
    | some x =>
      rw [ha] at hmode
      cases rest with
      | nil => exact .inr ⟨hmode, m.fetched, x, rfl, Opcode.awaits?_eq_some_iff.mp ha⟩
      | cons running _ _ => cases hmode.symm.trans running

theorem moves_of_tick {n : Nat} (hs : s.isTick = true) (ht : m.respond s = m.tick n)
    (hw : m.executed s = m.ticked n) (h : (m.tick n).1.mode ≠ m.mode) :
    Moves m s (m.tick n).1.mode := by
  rcases tick_cases n m with ⟨_, hn⟩ | ⟨m', hc⟩ | ⟨a, fault, hf⟩
  · rw [hn] at h
    exact absurd rfl h
  · have hm : (m.tick n).1 = m' := congrArg Prod.fst hc.tick_eq
    rw [hm] at h ⊢
    rcases hc.path.mode_cases hc.running with hrun | ⟨hwait, w, x, hl, hk⟩
    · exact absurd (hrun.trans hc.running.symm) h
    · rw [hwait]
      exact .awaited hc.running (hw ▸ hl) hk
  · have hm : (m.tick n).1.mode = .halted := congrArg (·.1.mode) hf.tick_eq
    rw [hm]
    exact .failed hf.running hs ((congrArg Prod.snd ht).trans (congrArg Prod.snd hf.tick_eq))

theorem moves_of_load (program : List UInt8) :
    Moves m (.event (.programLoaded program)) (m.load program).1.mode := by
  rcases load_cases m program with hl | ⟨fault, hl⟩
  · have hm : (m.load program).1.mode = .running := congrArg (·.1.mode) hl
    rw [hm]
    exact .loaded rfl (congrArg Prod.snd hl)
  · have hm : (m.load program).1.mode = .stopped := congrArg (·.1.mode) hl
    rw [hm]
    exact .refused rfl (congrArg Prod.snd hl)

theorem WaitsInMode.mode_keyDown (h : m.WaitsInMode) (key : Key) :
    (m.keyDown key).mode = if m.mode = .awaitingKey then .running else m.mode := by
  unfold Machine.keyDown Keypad.press
  cases hw : m.state.keypad.waiting with
  | none =>
    have hm : m.mode ≠ .awaitingKey := fun he => by
      have hs := h.mpr he
      rw [hw] at hs
      cases hs
    rw [if_neg hm]
    rfl
  | some x => rfl

/-- A mode that has changed has been moved. -/
theorem WaitsInMode.moves (h : m.WaitsInMode) (s : Stimulus)
    (hne : (m.respond s).1.mode ≠ m.mode) : Moves m s (m.respond s).1.mode := by
  cases s with
  | tick n => exact moves_of_tick rfl rfl rfl hne
  | event e =>
    cases e with
    | cpuTick => exact moves_of_tick rfl rfl rfl hne
    | timerTick t epoch =>
      obtain ⟨timers, ht⟩ := m.timerTick_frame t epoch
      exact absurd (congrArg mode ht) hne
    | keyDown key =>
      have hk : (m.respond (.event (.keyDown key))).1.mode = _ := h.mode_keyDown (.ofByte key)
      rw [hk] at hne ⊢
      split at hne
      next ha =>
        rw [if_pos ha]
        exact .pressed rfl ha
      next => exact absurd rfl hne
    | keyUp key => exact absurd rfl hne
    | programLoaded program => exact moves_of_load program
    | programUnavailable reason => exact .refused rfl rfl

theorem mode_of_fault {n : Nat} {fault : Fault} (h : (m.tick n).2 = .error fault) :
    (m.tick n).1.mode = .halted := by
  rcases tick_cases n m with ⟨_, ht⟩ | ⟨m', ht⟩ | ⟨a, _, ht⟩
  · rw [ht] at h
    cases h
  · rw [ht.tick_eq] at h
    cases h
  · exact congrArg (·.1.mode) ht.tick_eq

theorem mode_of_load (hs : s.isLoad = true) :
    (m.respond s).1.mode = if (m.respond s).2.isOk then .running else .stopped := by
  cases s with
  | tick n => cases hs
  | event e =>
    cases e with
    | programLoaded program =>
      change (m.load program).1.mode = if (m.load program).2.isOk then _ else _
      rcases load_cases m program with hl | ⟨fault, hl⟩ <;> rw [hl] <;> rfl
    | programUnavailable reason => rfl
    | _ => cases hs

theorem Moves.mode_eq (hw : m.WaitsInMode) {mode : Mode} (h : Moves m s mode) :
    (m.respond s).1.mode = mode := by
  cases h with
  | loaded load accepts =>
    rw [mode_of_load load, accepts]
    rfl
  | refused load refuses =>
    rw [mode_of_load load, refuses]
    rfl
  | pressed press awaits =>
    subst press
    exact (hw.mode_keyDown _).trans (if_pos awaits)
  | awaited _ last waits => exact (awaitsKey_of_executed last waits).mode
  | failed _ tick fails =>
    cases s with
    | tick n => exact mode_of_fault fails
    | event e =>
      cases e with
      | cpuTick => exact mode_of_fault fails
      | _ => cases tick

/-- A reachable machine that is stopped or halted rests until it is told of a program. The mode of a
reachable machine only moves to running by an accepted program or by a press that ends a wait, from
running to waiting by `Fx0A` or to halted by a fault, and to stopped by a refused program. -/
theorem rests_until_load (h : m.Reachable) :
    (m.AtRest → ∀ ss : List Stimulus, (∀ s ∈ ss, s.isLoad = false) → m.Rests ss) ∧
      ∀ s : Stimulus,
        ((m.respond s).1.mode ≠ m.mode → Moves m s (m.respond s).1.mode) ∧
          ∀ mode, Moves m s mode → (m.respond s).1.mode = mode := by
  have hw := h.waitsInMode
  refine ⟨fun hm ss hs => hm.rests ?_ hs, fun s => ⟨hw.moves s, fun _ => Moves.mode_eq hw⟩⟩
  have hne : m.mode ≠ .awaitingKey := by
    rcases hm with hm | hm <;> rw [hm] <;> decide
  exact hw.waiting_eq_none hne

/-- A wait for a key is given up for another program, whose return without a call halts the machine.
A press is then no longer captured. -/
theorem rests_until_load_halted :
    let m := (new {} 0).after [.event (.programLoaded [0xF3, 0x0A]), .tick 1,
      .event (.programLoaded [0x60, 0x07, 0x00, 0xEE]), .event .cpuTick]
    let ss : List Stimulus := [.event (.keyDown 5), .event .cpuTick, .event (.timerTick .sound 2),
      .tick 9, .event (.keyUp 5)]
    m.Reachable ∧ m.mode = .halted ∧ m.Rests ss ∧ m.state.get 0 = 7 ∧
      (m.after ss).state.get 0 = 7 ∧ Moves m (.event (.programLoaded [0x12, 0x00])) .running := by
  intro m ss
  have hm : m.Reachable := .respond _ (.respond _ (.respond _ (.respond _ (.new {} 0))))
  have hh : m.mode = .halted ∧ m.state.get 0 = 7 ∧
      (m.respond (.event (.programLoaded [0x12, 0x00]))).1.mode = .running := by
    decide +kernel
  obtain ⟨hmode, hget, hload⟩ := hh
  obtain ⟨hrest, hmoves⟩ := rests_until_load hm
  have hr : m.Rests ss := hrest (.inr hmode) ss (by decide)
  have hmove := (hmoves (.event (.programLoaded [0x12, 0x00]))).1
  rw [hload, hmode] at hmove
  have hafter : (m.after ss).state.get 0 = m.state.get 0 :=
    congrArg (Registers.get · 0) hr.registers
  exact ⟨hm, hmode, hr, hget, hafter.trans hget, hmove (by decide)⟩

end Machine
end Chip8
