import Chip8.Proofs.Isolation
import Chip8.Proofs.Lockstep

/-! # Dead state

Of the index only the address that it names is seen, of the call stack only the return addresses in
use, and of the draw flag nothing at all. Machines that differ in no more than the rest give the
same answers to all stimuli. -/
namespace Chip8

namespace Address

variable {w w' : UInt16}

theorem ofWord_add_congr (h : ofWord w' = ofWord w) (v : UInt16) :
    ofWord (w' + v) = ofWord (w + v) := by
  have hv := congrArg Fin.val h
  apply Fin.ext
  simp only [val_ofWord, UInt16.toNat_add] at hv ⊢
  omega

end Address

namespace Memory

variable {w w' : UInt16}

theorem readRange_congr (h : Address.ofWord w' = Address.ofWord w) (m : Memory) (n : Nat) :
    m.readRange w' n = m.readRange w n := by
  apply List.map_congr_left
  intro k _
  exact congrArg m.get (Address.ofWord_add_congr h _)

theorem store_congr (h : Address.ofWord w' = Address.ofWord w) (m : Memory) (bs : List UInt8) :
    m.store w' bs = m.store w bs := by
  induction bs generalizing m w w' with
  | nil => rfl
  | cons b bs ih =>
    have hw : m.write w' b = m.write w b := by
      simp only [write, h]
    rw [store, store, hw]
    exact ih (Address.ofWord_add_congr h 1) _

end Memory

/-- Registers with the same contents, whose indices name the same address and whose return addresses
in use are the same. -/
structure Registers.Alike (r q : Registers) : Prop where
  v : q.v = r.v
  index : Address.ofWord q.i = Address.ofWord r.i
  pc : q.pc = r.pc
  stack : q.stack.toList = r.stack.toList

namespace Registers.Alike

variable {r q : Registers}

theorem get (h : r.Alike q) (x : Register) : q.get x = r.get x := by
  rw [Registers.get, Registers.get, h.v]

theorem set (h : r.Alike q) (x : Register) (b : UInt8) : (r.set x b).Alike (q.set x b) :=
  ⟨congrArg (·.set x.val b x.isLt) h.v, h.index, h.pc, h.stack⟩

theorem jump (h : r.Alike q) (w : UInt16) : (r.jump w).Alike (q.jump w) :=
  ⟨h.v, h.index, rfl, h.stack⟩

theorem advance (h : r.Alike q) : r.advance.Alike q.advance := by
  unfold Registers.advance
  rw [h.pc]
  exact h.jump _

theorem skipIf (h : r.Alike q) (condition : Bool) :
    (r.skipIf condition).Alike (q.skipIf condition) := by
  cases condition with
  | false => exact h
  | true => exact h.advance

theorem setIndex (h : r.Alike q) {w w' : UInt16} (hw : Address.ofWord w' = Address.ofWord w) :
    (r.setIndex w).Alike (q.setIndex w') :=
  ⟨h.v, hw, h.pc, h.stack⟩

theorem operate (h : r.Alike q) (op : Operation) (x y : Register) :
    (r.operate op x y).Alike (q.operate op x y) := by
  have hs := h.set x (op.result (r.get x) (r.get y))
  unfold Registers.operate
  rw [h.get, h.get]
  cases op with
  | copy | or | and | xor => exact hs
  | _ => exact hs.set flag _

theorem setFrom (h : r.Alike q) (x : Nat) (bs : List UInt8) :
    (r.setFrom x bs).Alike (q.setFrom x bs) := by
  induction bs generalizing r q x with
  | nil => exact h
  | cons b bs ih =>
    unfold Registers.setFrom
    split
    next hx => exact ih (h.set ⟨x, hx⟩ b) (x + 1)
    next => exact h

theorem upTo (h : r.Alike q) (x : Register) : q.upTo x = r.upTo x := by
  rw [Registers.upTo, Registers.upTo, h.v]

theorem current (h : r.Alike q) : q.current = r.current := by
  rw [Registers.current, Registers.current, h.pc]

theorem depth (h : r.Alike q) : q.stack.depth = r.stack.depth := by
  simpa using congrArg List.length h.stack

theorem push (h : r.Alike q) (w : UInt16) : Agree Alike (r.push w) (q.push w) := by
  have hn : q.stack.push? w = none ↔ r.stack.push? w = none := by
    rw [CallStack.push?_eq_none_iff, CallStack.push?_eq_none_iff, h.depth]
  unfold Registers.push
  cases hr : r.stack.push? w with
  | none =>
    rw [hn.mpr hr, h.current]
    exact .error _
  | some s =>
    cases hq : q.stack.push? w with
    | none => exact absurd (hn.mp hq) (by simp [hr])
    | some t =>
      refine .ok ⟨h.v, h.index, h.pc, ?_⟩
      rw [CallStack.toList_push? hr, CallStack.toList_push? hq, h.stack]

theorem pop (h : r.Alike q) : Agree (fun a b => b.1 = a.1 ∧ a.2.Alike b.2) r.pop q.pop := by
  have hn : q.stack.pop? = none ↔ r.stack.pop? = none := by
    rw [CallStack.pop?_eq_none_iff, CallStack.pop?_eq_none_iff, h.depth]
  unfold Registers.pop
  cases hr : r.stack.pop? with
  | none =>
    rw [hn.mpr hr, h.current]
    exact .error _
  | some a =>
    cases hq : q.stack.pop? with
    | none => exact absurd (hn.mp hq) (by simp [hr])
    | some b =>
      have ht := h.stack
      rw [CallStack.toList_pop? hr, CallStack.toList_pop? hq] at ht
      obtain ⟨hs, ha⟩ := List.append_inj' ht rfl
      exact .ok ⟨List.head_eq_of_cons_eq ha, h.v, h.index, h.pc, hs⟩

end Registers.Alike

/-- States that differ in dead parts only. -/
structure State.Alike (s t : State) : Prop where
  memory : t.memory = s.memory
  registers : s.registers.Alike t.registers
  screen : t.screen = s.screen
  keypad : t.keypad = s.keypad
  timers : t.timers = s.timers
  mode : t.mode = s.mode

theorem Condition.holds_congr {s t : State} (h : s.Alike t) (c : Condition) :
    c.holds t = c.holds s := by
  have hg : ∀ x, t.get x = s.get x := h.registers.get
  cases c <;> simp only [holds, hg, h.keypad]

namespace State.Alike

variable {s t : State}

theorem refl (s : State) : s.Alike s := ⟨rfl, ⟨rfl, rfl, rfl, rfl⟩, rfl, rfl, rfl, rfl⟩

theorem get (h : s.Alike t) (x : Register) : t.get x = s.get x := h.registers.get x

theorem withRegisters (h : s.Alike t) {r q : Registers} (hr : r.Alike q) :
    Alike { s with registers := r } { t with registers := q } :=
  ⟨h.memory, hr, h.screen, h.keypad, h.timers, h.mode⟩

theorem setRegister (h : s.Alike t) (x : Register) {b b' : UInt8} (hb : b' = b) :
    (s.setRegister x b).Alike (t.setRegister x b') :=
  h.withRegisters (hb ▸ h.registers.set x b)

theorem setIndex (h : s.Alike t) {w w' : UInt16} (hw : Address.ofWord w' = Address.ofWord w) :
    (s.setIndex w).Alike (t.setIndex w') :=
  h.withRegisters (h.registers.setIndex hw)

theorem store (h : s.Alike t) {bs bs' : List UInt8} (hb : bs' = bs) :
    Alike { s with memory := s.memory.store s.registers.i bs }
      { t with memory := t.memory.store t.registers.i bs' } where
  memory := by
    change t.memory.store _ bs' = _
    rw [hb, h.memory, Memory.store_congr h.registers.index]
  registers := h.registers
  screen := h.screen
  keypad := h.keypad
  timers := h.timers
  mode := h.mode

theorem draw (h : s.Alike t) (x y : Register) (rows : Nibble) :
    (s.draw x y rows).Alike (t.draw x y rows) := by
  unfold State.draw
  rw [h.memory, Memory.readRange_congr h.registers.index, h.get, h.get, h.screen]
  exact ⟨rfl, h.registers.set _ _, rfl, h.keypad, h.timers, h.mode⟩

/-- An instruction executes alike on states that differ in dead parts only. -/
theorem execute (h : s.Alike t) (g : Generator) (i : Instruction) :
    Agree (fun a b => a.1.Alike b.1 ∧ b.2 = a.2) (s.execute g i) (t.execute g i) := by
  cases i with
  | clear => exact .ok ⟨⟨h.memory, h.registers, rfl, h.keypad, h.timers, h.mode⟩, rfl⟩
  | ret =>
    refine h.registers.pop.map fun {a b} hab => ⟨h.withRegisters ?_, rfl⟩
    rw [hab.1]
    exact hab.2.jump a.1
  | routine a => exact .ok ⟨h, rfl⟩
  | jump a => exact .ok ⟨h.withRegisters (h.registers.jump _), rfl⟩
  | call a =>
    unfold State.execute
    rw [h.registers.pc]
    exact (h.registers.push _).map fun hr => ⟨h.withRegisters (hr.jump _), rfl⟩
  | skip c =>
    refine .ok ⟨h.withRegisters ?_, rfl⟩
    rw [Condition.holds_congr h c]
    exact h.registers.skipIf _
  | setByte x b => exact .ok ⟨h.setRegister x rfl, rfl⟩
  | addByte x b => exact .ok ⟨h.setRegister x (congrArg (· + b) (h.get x)), rfl⟩
  | operate op x y => exact .ok ⟨h.withRegisters (h.registers.operate op x y), rfl⟩
  | setIndex a => exact .ok ⟨h.setIndex rfl, rfl⟩
  | jumpOffset a =>
    refine .ok ⟨h.withRegisters ?_, rfl⟩
    rw [h.get]
    exact h.registers.jump _
  | random x mask => exact .ok ⟨h.setRegister x rfl, rfl⟩
  | draw x y rows => exact .ok ⟨h.draw x y rows, rfl⟩
  | readDelay x => exact .ok ⟨h.setRegister x (congrArg (·.delay.value) h.timers), rfl⟩
  | awaitKey x =>
    have hk : t.keypad.await x = s.keypad.await x := congrArg (·.await x) h.keypad
    exact .ok ⟨⟨h.memory, h.registers, h.screen, hk, h.timers, rfl⟩, rfl⟩
  | setTimer u x =>
    have ht : t.timers.set u ((t.timers.get u).set (t.get x)) =
        s.timers.set u ((s.timers.get u).set (s.get x)) := by
      rw [h.timers, h.get]
    exact .ok ⟨⟨h.memory, h.registers, h.screen, h.keypad, ht, h.mode⟩, rfl⟩
  | addIndex x =>
    have hi : Address.ofWord (t.registers.i + (t.get x).toUInt16) =
        Address.ofWord (s.registers.i + (s.get x).toUInt16) := by
      rw [h.get]
      exact Address.ofWord_add_congr h.registers.index _
    exact .ok ⟨h.setIndex hi, rfl⟩
  | pointGlyph x => exact .ok ⟨h.setIndex (by rw [h.get]), rfl⟩
  | storeDecimal x => exact .ok ⟨h.store (congrArg decimalDigits (h.get x)), rfl⟩
  | storeRegisters x => exact .ok ⟨h.store (h.registers.upTo x), rfl⟩
  | loadRegisters x =>
    refine .ok ⟨h.withRegisters ?_, rfl⟩
    rw [h.memory, Memory.readRange_congr h.registers.index]
    exact h.registers.setFrom 0 _

end State.Alike

namespace Machine

/-- Machines whose states differ in dead parts only. -/
structure Alike (a b : Machine) : Prop where
  state : a.state.Alike b.state
  configuration : b.configuration = a.configuration
  random : b.random = a.random
  epoch : b.epoch = a.epoch

variable {a b : Machine}

namespace Alike

theorem refl (a : Machine) : a.Alike a := ⟨.refl a.state, rfl, rfl, rfl⟩

theorem mode (h : a.Alike b) : b.mode = a.mode := h.state.mode

theorem fetched (h : a.Alike b) : b.fetched = a.fetched := by
  rw [Machine.fetched, Machine.fetched, pc, pc, h.state.memory, h.state.registers.pc]

theorem withState (h : a.Alike b) {s t : State} (hs : s.Alike t) :
    Alike { a with state := s } { b with state := t } :=
  ⟨hs, h.configuration, h.random, h.epoch⟩

theorem advanced (h : a.Alike b) : a.advanced.Alike b.advanced :=
  h.withState (h.state.withRegisters h.state.registers.advance)

theorem withMode (h : a.Alike b) (mode : Mode) : (a.withMode mode).Alike (b.withMode mode) :=
  h.withState ⟨h.state.memory, h.state.registers, h.state.screen, h.state.keypad, h.state.timers,
    rfl⟩

theorem withDrawFlag (h : a.Alike b) (drawFlag drawFlag' : Bool) :
    (a.withDrawFlag drawFlag).Alike (b.withDrawFlag drawFlag') :=
  h.withState ⟨h.state.memory, h.state.registers, h.state.screen, h.state.keypad, h.state.timers,
    h.state.mode⟩

theorem failed (h : a.Alike b) : a.failed.Alike b.failed := h.advanced.withMode .halted

theorem step (h : a.Alike b) : Agree Alike a.step b.step := by
  unfold Machine.step
  rw [h.fetched, h.configuration, pc, pc, h.state.registers.pc]
  cases Instruction.decode? a.fetched with
  | some i =>
    unfold execute
    rw [h.advanced.random]
    refine (h.advanced.state.execute _ i).map fun hab => ?_
    exact ⟨hab.1, h.configuration, hab.2, h.epoch⟩
  | none =>
    cases a.configuration.unknownOpcode with
    | skip => exact .ok h.advanced
    | halt => exact .error _

end Alike

/-- Machines that differ in dead parts only and have both drawn since a tick began, or neither. -/
def Abreast (a b : Machine) : Prop := a.Alike b ∧ b.state.drawFlag = a.state.drawFlag

namespace Abreast

theorem step (h : a.Abreast b) : Agree Abreast a.step b.step := by
  refine h.1.step.mono fun {a' b'} ha hb hab => ⟨hab, ?_⟩
  rw [(footprint_of_step ha).drawFlag, (footprint_of_step hb).drawFlag, h.1.fetched, h.2]

theorem batch (h : a.Abreast b) (n : Nat) :
    (Machine.batch n a).1.Abreast (Machine.batch n b).1 ∧
      (Machine.batch n b).2 = (Machine.batch n a).2 :=
  batch_lockstep (R := Abreast) (fun h => h.1.mode) step (fun h => ⟨h.1.failed, h.2⟩) n h

theorem effectsSince (h : a.Abreast b) (before : Timers) :
    b.effectsSince before = a.effectsSince before := by
  have hs : b.schedule = a.schedule := by
    funext t
    rw [schedule, schedule, h.1.epoch]
  have ht : b.startedTimers before = a.startedTimers before := by
    rw [startedTimers, startedTimers, h.1.state.timers]
  rw [Machine.effectsSince, Machine.effectsSince, renderings, renderings, hs, ht, h.2,
    h.1.state.screen]

end Abreast

namespace Alike

theorem tick (h : a.Alike b) (n : Nat) :
    (a.tick n).1.Alike (b.tick n).1 ∧ (b.tick n).2 = (a.tick n).2 := by
  by_cases hr : a.mode = .running
  · have hl : (a.withDrawFlag false).Abreast (b.withDrawFlag false) :=
      ⟨h.withDrawFlag false false, rfl⟩
    obtain ⟨hm, hf⟩ := hl.batch n
    rw [tick_of_running hr, tick_of_running (h.mode.trans hr), h.state.timers]
    generalize Machine.batch n (a.withDrawFlag false) = x at hm hf ⊢
    generalize Machine.batch n (b.withDrawFlag false) = y at hm hf ⊢
    obtain ⟨a', outcome⟩ := x
    obtain ⟨b', _⟩ := y
    cases hf
    cases outcome with
    | none => exact ⟨hm.1, congrArg Except.ok (hm.effectsSince _)⟩
    | some fault => exact ⟨hm.1, rfl⟩
  · rw [tick_of_not_running hr, tick_of_not_running (h.mode ▸ hr)]
    exact ⟨h, rfl⟩

theorem timerTick (h : a.Alike b) (t : Timer) (epoch : UInt32) :
    (a.timerTick t epoch).1.Alike (b.timerTick t epoch).1 ∧
      (b.timerTick t epoch).2 = (a.timerTick t epoch).2 := by
  unfold Machine.timerTick
  rw [h.epoch, h.state.timers, schedule, schedule, h.epoch]
  split
  next =>
    refine ⟨⟨?_, h.configuration, h.random, rfl⟩, rfl⟩
    exact ⟨h.state.memory, h.state.registers, h.state.screen, h.state.keypad, rfl, h.state.mode⟩
  next => exact ⟨h, rfl⟩

theorem keyDown (h : a.Alike b) (key : Key) : (a.keyDown key).Alike (b.keyDown key) := by
  unfold Machine.keyDown
  rw [h.state.keypad, h.mode]
  rcases a.state.keypad.press key with ⟨keypad, none | x⟩
  · exact h.withState ⟨h.state.memory, h.state.registers, h.state.screen, rfl, h.state.timers,
      h.state.mode⟩
  · have hs := h.state.setRegister x (b := key.toByte) rfl
    exact h.withState ⟨hs.memory, hs.registers, hs.screen, rfl, hs.timers, rfl⟩

theorem keyUp (h : a.Alike b) (key : Key) : (a.keyUp key).Alike (b.keyUp key) :=
  h.withState ⟨h.state.memory, h.state.registers, h.state.screen,
    congrArg (·.release key) h.state.keypad, h.state.timers, h.state.mode⟩

/-- A new state has no dead parts in which two machines could differ. -/
theorem renewed (h : a.Alike b) (s : State) :
    Alike { a.reset with state := s } { b.reset with state := s } :=
  ⟨.refl s, h.configuration, h.random, congrArg (· + 1) h.epoch⟩

theorem respond (h : a.Alike b) (s : Stimulus) :
    (a.respond s).1.Alike (b.respond s).1 ∧ (b.respond s).2 = (a.respond s).2 := by
  cases s with
  | tick n => exact h.tick n
  | event e =>
    cases e with
    | cpuTick =>
      unfold Machine.respond handle
      rw [h.configuration]
      exact h.tick _
    | timerTick t epoch =>
      obtain ⟨hm, he⟩ := h.timerTick t epoch
      exact ⟨hm, congrArg Except.ok he⟩
    | keyDown key => exact ⟨h.keyDown _, rfl⟩
    | keyUp key => exact ⟨h.keyUp _, rfl⟩
    | programLoaded program =>
      change (a.load program).1.Alike (b.load program).1 ∧ (b.load program).2 = (a.load program).2
      rw [load_eq, load_eq]
      exact ⟨h.renewed _, rfl⟩
    | programUnavailable reason => exact ⟨h.renewed .initial, rfl⟩

theorem after (h : a.Alike b) (ss : List Stimulus) : (a.after ss).Alike (b.after ss) := by
  induction ss generalizing a b with
  | nil => exact h
  | cons s ss ih => exact ih (h.respond s).1

theorem answers (h : a.Alike b) (ss : List Stimulus) : b.answers ss = a.answers ss := by
  induction ss generalizing a b with
  | nil => rfl
  | cons s ss ih =>
    obtain ⟨hm, hr⟩ := h.respond s
    rw [Machine.answers, Machine.answers, hr, ih hm]

theorem of_index (m : Machine) {i : UInt16} (h : i.toNat % 4096 = m.state.registers.i.toNat % 4096) :
    m.Alike { m with state := m.state.setIndex i } :=
  (Alike.refl m).withState ((State.Alike.refl m.state).setIndex (Fin.ext h))

/-- Machines that differ in dead parts only give the same answers to all stimuli and differ in dead
parts only ever after. The bits of the index above its address are such a part. -/
theorem unobservable (h : a.Alike b) (ss : List Stimulus) :
    (b.answers ss = a.answers ss ∧ (a.after ss).Alike (b.after ss)) ∧
      ∀ i : UInt16, i.toNat % 4096 = a.state.registers.i.toNat % 4096 →
        let c : Machine := { a with state := a.state.setIndex i }
        c.answers ss = a.answers ss ∧
          (c.after ss).state.memory = (a.after ss).state.memory ∧
          (c.after ss).state.screen = (a.after ss).state.screen ∧
          (c.after ss).state.registers.v = (a.after ss).state.registers.v ∧
          (c.after ss).pc = (a.after ss).pc := by
  refine ⟨⟨h.answers ss, h.after ss⟩, fun i hi => ?_⟩
  have hc := of_index a hi
  have hs := (hc.after ss).state
  exact ⟨hc.answers ss, hs.memory, hs.screen, hs.registers.v, hs.registers.pc⟩

/-- The word `D015` draws the glyph of a nought. The second machine has other bits above the address
of its index, a stale return address and a raised draw flag. -/
theorem unobservable_glyph :
    let a := (new {} 0).booted [0xD0, 0x15]
    let stale : CallStack := ⟨CallStack.empty.slots.set 3 0xABC, 0, by decide⟩
    let b := { a with state := { a.state with
      registers := { a.state.registers with i := 0xF000, stack := stale }
      drawFlag := true } }
    a.Alike b ∧ b ≠ a ∧
      b.answers [.tick 1, .event (.keyDown 7), .tick 5] =
        a.answers [.tick 1, .event (.keyDown 7), .tick 5] := by
  intro a stale b
  have h : a.Alike b := ⟨⟨rfl, ⟨rfl, by decide, rfl, rfl⟩, rfl, rfl, rfl, rfl⟩, rfl, rfl, rfl⟩
  have hne : b ≠ a := by
    intro he
    have hd : true = false := congrArg (·.state.drawFlag) he
    cases hd
  exact ⟨h, hne, (unobservable h _).1.1⟩

end Alike

end Machine
end Chip8
