import Chip8.Machine

/-! # Footprints

What a single instruction can change outside the registers and the memory, and what one successful
step of a machine therefore leaves as it was. -/
namespace Chip8

namespace Instruction

/-- The register into which the instruction waits for a key. -/
def awaits? : Instruction → Option Register
  | awaitKey x => some x
  | _ => none

/-- Whether the instruction clears the screen or draws on it. -/
def draws : Instruction → Bool
  | clear | draw .. => true
  | _ => false

def sets (t : Timer) : Instruction → Bool
  | setTimer u _ => u = t
  | _ => false

end Instruction

theorem Countdown.running_set {c : Countdown} (h : c.running = true) (b : UInt8) :
    (c.set b).running = true := by
  simp [Countdown.set, h]

/-- An instruction `i` has led from `s` to `s'`. -/
structure Footprint (i : Instruction) (s s' : State) : Prop where
  keypad : s'.keypad = i.awaits?.elim s.keypad s.keypad.await
  mode : s'.mode = if i.awaits?.isSome then .awaitingKey else s.mode
  timer : ∀ t, i.sets t = false → s'.timers.get t = s.timers.get t
  running : ∀ t, (s.timers.get t).running = true → (s'.timers.get t).running = true
  drawFlag : s'.drawFlag = (i.draws || s.drawFlag)
  screen : i.draws = false → s'.screen = s.screen

namespace Footprint

/-- Registers and memory are free to change. -/
theorem of_rest {i : Instruction} {s s' : State} (hi : i.awaits? = none) (hd : i.draws = false)
    (hs : s' = { s with registers := s'.registers, memory := s'.memory }) : Footprint i s s' := by
  rw [hs]
  exact ⟨by rw [hi]; rfl, by rw [hi]; rfl, fun _ _ => rfl, fun _ h => h,
    by rw [hd]; rfl, fun _ => rfl⟩

theorem of_setTimer (s : State) (t : Timer) (x : Register) :
    Footprint (.setTimer t x) s
      { s with timers := s.timers.set t ((s.timers.get t).set (s.get x)) } where
  keypad := rfl
  mode := rfl
  timer := by
    intro u hu
    have hne : u ≠ t := by
      intro he
      simp [Instruction.sets, he] at hu
    simp [Timers.get_set, hne]
  running := by
    intro u hr
    rw [Timers.get_set]
    split
    next he => exact Countdown.running_set (he ▸ hr) _
    next => exact hr
  drawFlag := rfl
  screen := fun _ => rfl

end Footprint

theorem Fault.ok_of_map {α β : Type} {f : α → β} {x : Except Fault α} {b : β}
    (h : x.map f = .ok b) : ∃ a, x = .ok a ∧ f a = b := by
  cases x with
  | error e => cases h
  | ok a => exact ⟨a, rfl, Except.ok.inj h⟩

namespace State

theorem footprint_of_execute {s s' : State} {g g' : Generator} {i : Instruction}
    (h : s.execute g i = .ok (s', g')) : Footprint i s s' := by
  cases i with
  | clear | draw | awaitKey =>
    cases h
    exact ⟨rfl, rfl, fun _ _ => rfl, fun _ hr => hr, rfl, by simp [Instruction.draws]⟩
  | setTimer t x =>
    cases h
    exact .of_setTimer s t x
  | ret =>
    obtain ⟨⟨w, r⟩, _, he⟩ := Fault.ok_of_map h
    cases he
    exact .of_rest rfl rfl rfl
  | call a =>
    obtain ⟨r, _, he⟩ := Fault.ok_of_map h
    cases he
    exact .of_rest rfl rfl rfl
  | _ =>
    cases h
    exact .of_rest rfl rfl rfl

end State

/-- What a word does to a machine that does not halt at it. One that is no instruction does as
little as a machine code routine. -/
def Opcode.meaning (w : Opcode) : Instruction :=
  (Instruction.decode? w).getD (.routine (address w))

theorem Opcode.meaning_of_decode? {w : Opcode} {i : Instruction}
    (h : Instruction.decode? w = some i) : meaning w = i := by
  rw [meaning, h, Option.getD_some]

namespace Machine

theorem step_of_decode? {m : Machine} {i : Instruction}
    (h : Instruction.decode? m.fetched = some i) : m.step = m.advanced.execute i := by
  rw [step, h]

theorem execute_of_step {m m' : Machine} (h : m.step = .ok m') :
    m.advanced.execute (Opcode.meaning m.fetched) = .ok m' := by
  unfold step at h
  split at h
  next i hi => rwa [Opcode.meaning_of_decode? hi]
  next hn =>
    split at h
    · rw [Opcode.meaning, hn, ← h]
      rfl
    · cases h

/-- Fetching moves the program counter, which is no part of a footprint. -/
theorem footprint_of_step {m m' : Machine} (h : m.step = .ok m') :
    Footprint (Opcode.meaning m.fetched) m.state m'.state := by
  obtain ⟨⟨s, g⟩, hs, rfl⟩ := Fault.ok_of_map (execute_of_step h)
  have hf := State.footprint_of_execute hs
  exact ⟨hf.keypad, hf.mode, hf.timer, hf.running, hf.drawFlag, hf.screen⟩

theorem epoch_of_step {m m' : Machine} (h : m.step = .ok m') : m'.epoch = m.epoch := by
  obtain ⟨_, _, rfl⟩ := Fault.ok_of_map (execute_of_step h)
  rfl

theorem configuration_of_step {m m' : Machine} (h : m.step = .ok m') :
    m'.configuration = m.configuration := by
  obtain ⟨_, _, rfl⟩ := Fault.ok_of_map (execute_of_step h)
  rfl

end Machine
end Chip8
