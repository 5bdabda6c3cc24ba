import Chip8.Proofs.KeyWait

/-! # Capturing a key

The protocol between a program that executes `Fx0A` and the keypad: what the machine does while it
waits, what the press that ends the wait changes, and that no later press changes a register until
the program waits again. -/
namespace Chip8

/-- Whether a stimulus neither presses a key nor tells of a program. -/
def Stimulus.isQuiet : Stimulus → Bool
  | .event .cpuTick | .event (.timerTick ..) | .event (.keyUp _) | .tick _ => true
  | _ => false

namespace Machine

structure AwaitsKey (x : Register) (m : Machine) : Prop where
  mode : m.mode = .awaitingKey
  waiting : m.state.keypad.waiting = some x

theorem awaitsKey_of_step {x : Register} {m m' : Machine} (h : m.step = .ok m')
    (hw : Opcode.IsKeyWait x m.fetched) : m'.AwaitsKey x := by
  have hf := footprint_of_step h
  have ha := Opcode.awaits?_eq_some_iff.mpr hw
  constructor
  · have hm := hf.mode
    rw [ha] at hm
    exact hm
  · rw [hf.keypad, ha]
    rfl

theorem Path.awaitsKey {x : Register} {m m' : Machine} {ws : List Opcode} {w : Opcode}
    (h : Path m ws m') (hl : ws.getLast? = some w) (hw : Opcode.IsKeyWait x w) :
    m'.AwaitsKey x := by
  induction h with
  | nil => cases hl
  | cons _ hs rest ih =>
    cases rest with
    | nil =>
      cases hl
      exact awaitsKey_of_step hs hw
    | cons _ _ _ => exact ih (by simpa using hl)

/-- A wait ends the batch, so that nothing else executes in the tick. -/
theorem awaitsKey_of_ticked {x : Register} {m : Machine} {n : Nat} {w : Opcode}
    (hl : (m.ticked n).getLast? = some w) (hw : Opcode.IsKeyWait x w) :
    (m.tick n).1.AwaitsKey x := by
  rcases tick_cases n m with ⟨hr, _⟩ | ⟨m', ht⟩ | ⟨a, fault, ht⟩
  · rw [ticked_of_not_running hr] at hl
    cases hl
  · rw [ht.tick_eq]
    exact ht.path.awaitsKey hl hw
  · have ha := (ht.path.awaitsKey hl hw).mode
    rw [ht.still_running] at ha
    cases ha

theorem awaitsKey_of_executed {x : Register} {m : Machine} {s : Stimulus} {w : Opcode}
    (hl : (m.executed s).getLast? = some w) (hw : Opcode.IsKeyWait x w) :
    (m.respond s).1.AwaitsKey x := by
  cases s with
  | tick n => exact awaitsKey_of_ticked hl hw
  | event e =>
    cases e with
    | cpuTick => exact awaitsKey_of_ticked hl hw
    | _ => cases hl

/-- The machine `m` after it has taken the key into register `x`. -/
def captured (x : Register) (key : UInt8) (m : Machine) : Machine :=
  { m with state := { m.state with
    registers := m.state.registers.set x (key % 16)
    keypad := ⟨m.state.keypad.pressed.set (key.toNat % 16) true, none⟩
    mode := .running } }

namespace AwaitsKey

variable {x : Register} {m : Machine}

theorem not_running (h : m.AwaitsKey x) : m.mode ≠ .running := by
  rw [h.mode]
  decide

theorem respond (h : m.AwaitsKey x) {s : Stimulus} (hq : s.isQuiet = true) :
    (m.respond s).1.AwaitsKey x := by
  cases s with
  | tick n =>
    change (m.tick n).1.AwaitsKey x
    rw [tick_of_not_running h.not_running]
    exact h
  | event e =>
    cases e with
    | cpuTick =>
      change (m.tick _).1.AwaitsKey x
      rw [tick_of_not_running h.not_running]
      exact h
    | timerTick t epoch =>
      obtain ⟨timers, ht⟩ := m.timerTick_frame t epoch
      change (m.timerTick t epoch).1.AwaitsKey x
      rw [ht]
      exact ⟨h.mode, h.waiting⟩
    | keyUp key => exact ⟨h.mode, h.waiting⟩
    | _ => cases hq

theorem after (h : m.AwaitsKey x) {ss : List Stimulus} (hq : ∀ s ∈ ss, s.isQuiet = true) :
    (m.after ss).AwaitsKey x := by
  induction ss generalizing m with
  | nil => exact h
  | cons s ss ih =>
    have hs : s.isQuiet = true := hq s (by simp)
    exact ih (h.respond hs) fun u hu => hq u (by simp [hu])

theorem keyDown (h : m.AwaitsKey x) (key : UInt8) : m.keyDown (.ofByte key) = m.captured x key := by
  have hk : Nibble.toByte (.ofByte key) = key % 16 := by
    apply UInt8.toNat_inj.mp
    simp
  unfold Machine.keyDown Keypad.press captured
  rw [h.waiting]
  simp only [h.mode, if_true, hk]
  rfl

end AwaitsKey

theorem waiting_of_tick {m : Machine} {n : Nat} (h : m.state.keypad.waiting = none)
    (hw : ∀ w ∈ m.ticked n, ∀ x, ¬ Opcode.IsKeyWait x w) :
    (m.tick n).1.state.keypad.waiting = none := by
  have hn : ∀ w ∈ m.ticked n, (Opcode.meaning w).awaits? = none :=
    fun w hm => Opcode.awaits?_eq_none (hw w hm)
  rcases tick_cases n m with ⟨_, ht⟩ | ⟨m', ht⟩ | ⟨a, fault, ht⟩
  · rw [ht]
    exact h
  · rw [ht.tick_eq, ht.path.keypad_eq hn]
    exact h
  · rw [ht.tick_eq]
    exact (congrArg Keypad.waiting (ht.path.keypad_eq hn)).trans h

theorem waiting_of_respond {m : Machine} {s : Stimulus} (h : m.state.keypad.waiting = none)
    (hw : ∀ w ∈ m.executed s, ∀ x, ¬ Opcode.IsKeyWait x w) :
    (m.respond s).1.state.keypad.waiting = none := by
  cases s with
  | tick n => exact waiting_of_tick h hw
  | event e =>
    cases e with
    | cpuTick => exact waiting_of_tick h hw
    | timerTick t epoch =>
      obtain ⟨timers, ht⟩ := m.timerTick_frame t epoch
      exact (congrArg (·.state.keypad.waiting) ht).trans h
    | keyDown key =>
      change (m.keyDown _).state.keypad.waiting = none
      unfold Machine.keyDown Keypad.press
      rw [h]
    | keyUp key => exact h
    | programLoaded program =>
      rcases load_cases m program with hl | ⟨fault, hl⟩
      · exact congrArg (·.1.state.keypad.waiting) hl
      · exact congrArg (·.1.state.keypad.waiting) hl
    | programUnavailable reason => rfl

theorem waiting_of_after {m : Machine} {ss : List Stimulus} (h : m.state.keypad.waiting = none)
    (hw : ∀ w ∈ m.executedAfter ss, ∀ x, ¬ Opcode.IsKeyWait x w) :
    (m.after ss).state.keypad.waiting = none := by
  induction ss generalizing m with
  | nil => exact h
  | cons s ss ih =>
    have hs : ∀ w ∈ m.executed s, ∀ x, ¬ Opcode.IsKeyWait x w :=
      fun w hm => hw w (List.mem_append_left _ hm)
    exact ih (waiting_of_respond h hs) fun w hm => hw w (List.mem_append_right _ hm)

/-- A press that no register waits for. -/
theorem registers_of_keyDown {m : Machine} (h : m.state.keypad.waiting = none) (key : Key) :
    (m.keyDown key).state.registers = m.state.registers := by
  unfold Machine.keyDown Keypad.press
  rw [h]

/-- What a machine does that waits for a key into register `x`. -/
structure WaitsFor (x : Register) (m : Machine) : Prop where
  awaits : m.AwaitsKey x
  cpuTick : m.handle .cpuTick = (m, .ok [])
  tick : ∀ n, m.tick n = (m, .ok [])
  timerTick : ∀ t epoch, ∃ timers es,
    m.handle (.timerTick t epoch) = ({ m with state := { m.state with timers } }, .ok es)
  keyUp : ∀ key : UInt8, ∃ pressed,
    m.handle (.keyUp key) =
        ({ m with state := { m.state with keypad := ⟨pressed, some x⟩ } }, .ok []) ∧
      pressed = m.state.keypad.pressed.set (key.toNat % 16) false
  keyDown : ∀ key, m.handle (.keyDown key) = (m.captured x key, .ok [])
  once : ∀ key later,
    (∀ w ∈ (m.captured x key).executedAfter later, ∀ y, ¬ Opcode.IsKeyWait y w) →
      ∀ other, (((m.captured x key).after later).handle (.keyDown other)).1.state.registers =
        ((m.captured x key).after later).state.registers

theorem AwaitsKey.waitsFor {x : Register} {m : Machine} (h : m.AwaitsKey x) : m.WaitsFor x where
  awaits := h
  cpuTick := tick_of_not_running h.not_running _
  tick := tick_of_not_running h.not_running
  timerTick := by
    intro t epoch
    obtain ⟨timers, ht⟩ := m.timerTick_frame t epoch
    exact ⟨timers, (m.timerTick t epoch).2, by rw [← ht]; rfl⟩
  keyUp := by
    intro key
    refine ⟨_, ?_, rfl⟩
    rw [← h.waiting]
    rfl
  keyDown := by
    intro key
    rw [← h.keyDown key]
    rfl
  once := by
    intro key later hw other
    exact registers_of_keyDown (waiting_of_after rfl hw) _

/-- In a reachable machine a register waits exactly in the mode for it. Once `Fx0A` has executed
the machine waits for a key into register `x`, through any number of ticks and releases. -/
theorem key_wait_protocol {m : Machine} (h : m.Reachable) :
    (m.state.keypad.waiting.isSome = true ↔ m.mode = .awaitingKey) ∧
      ∀ (s : Stimulus) (w : Opcode) (x : Register), (m.executed s).getLast? = some w →
        Opcode.IsKeyWait x w → ∀ quiet : List Stimulus, (∀ q ∈ quiet, q.isQuiet = true) →
          ((m.respond s).1.after quiet).WaitsFor x := by
  refine ⟨h.waitsInMode, ?_⟩
  intro s w x hl hw quiet hq
  have ha := awaitsKey_of_executed hl hw
  exact (ha.after hq).waitsFor

/-- A program of the single word `F30A`, with a release and a tick after it. -/
theorem key_wait_protocol_loaded :
    let m := ((new {} 0).respond (.event (.programLoaded [0xF3, 0x0A]))).1
    m.Reachable ∧ (m.executed (.tick 1)).getLast? = some 0xF30A ∧ Opcode.IsKeyWait 3 0xF30A ∧
      ((m.respond (.tick 1)).1.after [.event (.keyUp 7), .tick 5]).WaitsFor 3 := by
  intro m
  have hm : m.Reachable := .respond _ (.new {} 0)
  have hb : m = (new {} 0).booted [0xF3, 0x0A] := congrArg Prod.fst (load_of_le (by decide) _)
  have hf : (m.withDrawFlag false).fetched = 0xF30A := by
    rw [hb]
    exact (fetched_of_memory [0xF3, 0x0A] 0 (by decide) rfl (by decide) (by decide)).trans (by decide)
  have hk : Opcode.IsKeyWait 3 (m.withDrawFlag false).fetched := by
    rw [hf]
    rfl
  have hr : (m.withDrawFlag false).mode = .running := by
    rw [hb]
    rfl
  have hl : (m.executed (.tick 1)).getLast? = some 0xF30A := by
    change (completed 1 (m.withDrawFlag false)).getLast? = _
    rw [completed_of_step hr (step_of_decode? (Instruction.decode?_keyWait hk)), hf]
    rfl
  exact ⟨hm, hl, rfl, (key_wait_protocol hm).2 (.tick 1) _ 3 hl rfl _ (by decide)⟩

end Machine
end Chip8
