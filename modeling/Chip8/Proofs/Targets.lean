import Chip8.Proofs.Families
import Chip8.Proofs.Loading

/-! # Targets

The parts of a state that a single instruction writes, as a function of its word. A successful step
leaves all other parts as they were, in every state and for every word. -/
namespace Chip8

/-- A part of a state that some instruction writes. The program counter is none, since every
instruction moves it. -/
inductive Part
  | register (x : Register)
  | index
  | slot (k : Nat)
  | depth
  | byte (a : Address)
  | screen
  | drawFlag
  | waiting
  | mode
  | timer (t : Timer)
  deriving DecidableEq

namespace Part

/-- The part is the same in both states. -/
def Same (s s' : State) : Part → Prop
  | register x => s'.get x = s.get x
  | index => s'.registers.i = s.registers.i
  | slot k => s'.registers.stack.slots[k]? = s.registers.stack.slots[k]?
  | depth => s'.registers.stack.depth = s.registers.stack.depth
  | byte a => s'.memory.get a = s.memory.get a
  | screen => s'.screen = s.screen
  | drawFlag => s'.drawFlag = s.drawFlag
  | waiting => s'.keypad.waiting = s.keypad.waiting
  | mode => s'.mode = s.mode
  | timer t => s'.timers.get t = s.timers.get t

theorem Same.refl (s : State) (p : Part) : p.Same s s := by cases p <;> rfl

theorem Same.trans {s s₁ s₂ : State} {p : Part} (h₁ : p.Same s s₁) (h₂ : p.Same s₁ s₂) :
    p.Same s s₂ := by
  cases p <;> exact Eq.trans h₂ h₁

end Part

theorem Address.ofNat_add_distance (w : UInt16) (a : Address) :
    Address.ofNat (w.toNat + distance w a) = a := by
  have ha := a.isLt
  apply Fin.ext
  rw [val_ofNat, distance]
  omega

attribute [ext] Keypad Timers

theorem Memory.ext_get {m m' : Memory} (h : ∀ a, m'.get a = m.get a) : m' = m := by
  have hb : m'.bytes = m.bytes := Vector.ext fun k hk => h ⟨k, hk⟩
  exact congrArg Memory.mk hb

theorem CallStack.ext_slots {s s' : CallStack} (depth : s'.depth = s.depth)
    (slots : ∀ k : Nat, s'.slots[k]? = s.slots[k]?) : s' = s := by
  have hs : s'.slots = s.slots := Vector.ext fun k hk => by simpa [hk] using slots k
  obtain ⟨slots', depth', _⟩ := s'
  subst hs depth
  rfl

theorem Registers.ext_get {r r' : Registers} (v : ∀ x, r'.get x = r.get x) (i : r'.i = r.i)
    (stack : r'.stack = r.stack) : r' = { r with pc := r'.pc } := by
  have hv : r'.v = r.v := Vector.ext fun k hk => v ⟨k, hk⟩
  rw [← hv, ← i, ← stack]

/-- The parts make up the state, with the program counter and the keys that are down. -/
theorem State.eq_of_same {s s' : State} (h : ∀ p : Part, p.Same s s')
    (pressed : s'.keypad.pressed = s.keypad.pressed) :
    s' = { s with registers := { s.registers with pc := s'.registers.pc } } := by
  have hstack : s'.registers.stack = s.registers.stack :=
    CallStack.ext_slots (h .depth) fun k => h (.slot k)
  have hregisters := Registers.ext_get (fun x => h (.register x)) (h .index) hstack
  have hmemory : s'.memory = s.memory := Memory.ext_get fun a => h (.byte a)
  have htimers : s'.timers = s.timers :=
    Timers.ext (h (.timer .delay)) (h (.timer .sound))
  have hkeypad : s'.keypad = s.keypad := Keypad.ext pressed (h .waiting)
  have hscreen : s'.screen = s.screen := h .screen
  have hmode : s'.mode = s.mode := h .mode
  have hflag : s'.drawFlag = s.drawFlag := h .drawFlag
  rw [← hregisters, ← hmemory, ← htimers, ← hkeypad, ← hscreen, ← hmode, ← hflag]

/-- Whether the operation reports a flag. -/
def Operation.flags : Operation → Bool
  | copy | or | and | xor => false
  | _ => true

theorem Registers.toList_push {r r' : Registers} {w : UInt16} (h : r.push w = .ok r') :
    r'.stack.toList = r.stack.toList ++ [w] := by
  unfold push at h
  split at h
  next stack hs =>
    cases h
    exact CallStack.toList_push? hs
  next => cases h

theorem Registers.toList_pop {r r' : Registers} {w : UInt16} (h : r.pop = .ok (w, r')) :
    r.stack.toList = r'.stack.toList ++ [w] := by
  unfold pop at h
  split at h
  next v stack hs =>
    cases h
    exact CallStack.toList_pop? hs
  next => cases h

/-- `count` consecutive bytes from the index on. -/
def State.indexed (s : State) (count : Nat) : List Part :=
  (List.range count).map fun k => .byte (.ofNat (s.registers.i.toNat + k))

theorem Registers.length_upTo (r : Registers) (x : Register) :
    (r.upTo x).length = x.val + 1 := by
  simp only [upTo, List.length_take, Vector.length_toList]
  omega

namespace Part

/-- The registers from the first to `x`. -/
def registersTo (x : Register) : List Part :=
  ((List.finRange 16).filter (· ≤ x)).map register

theorem mem_registersTo {x : Register} {p : Part} :
    p ∈ registersTo x ↔ ∃ y : Register, y ≤ x ∧ p = register y := by
  simp [registersTo, eq_comm]

variable {s : State} {p : Part}

theorem same_jump (s : State) (w : UInt16) (p : Part) : p.Same s (s.jump w) := by
  cases p <;> rfl

theorem same_skipIf (s : State) (condition : Bool) (p : Part) :
    p.Same s { s with registers := s.registers.skipIf condition } := by
  cases condition with
  | false => exact .refl s p
  | true => exact same_jump s _ p

theorem same_setRegister {x : Register} (h : p ≠ .register x) (b : UInt8) :
    p.Same s (s.setRegister x b) := by
  cases p with
  | register y =>
    have hne : y ≠ x := fun he => h (congrArg register he)
    exact (Registers.get_set ..).trans (if_neg hne)
  | _ => rfl

theorem same_setIndex (h : p ≠ .index) (w : UInt16) : p.Same s (s.setIndex w) := by
  cases p with
  | index => exact absurd rfl h
  | _ => rfl

theorem same_operate {op : Operation} {x : Register} (hx : p ≠ .register x)
    (hf : op.flags = true → p ≠ .register Registers.flag) (y : Register) :
    p.Same s { s with registers := s.registers.operate op x y } := by
  have hr := same_setRegister (s := s) hx (op.result (s.get x) (s.get y))
  cases op with
  | copy | or | and | xor => exact hr
  | _ => exact hr.trans (same_setRegister (hf rfl) _)

theorem same_setFrom {x : Nat} {bs : List UInt8}
    (h : ∀ y : Register, x ≤ y.val → y.val < x + bs.length → p ≠ .register y) :
    p.Same s { s with registers := s.registers.setFrom x bs } := by
  induction bs generalizing s x with
  | nil => exact .refl s p
  | cons b bs ih =>
    unfold Registers.setFrom
    split
    next hx =>
      have hb : p ≠ .register ⟨x, hx⟩ := h ⟨x, hx⟩ (Nat.le_refl x) (by simp)
      refine (same_setRegister (s := s) hb b).trans (ih fun y hy hlt => ?_)
      exact h y (by omega) (by rw [List.length_cons]; omega)
    next => exact .refl s p

theorem same_push {w : UInt16} {r : Registers} (h : s.registers.push w = .ok r)
    (hs : p ≠ .slot s.registers.stack.depth) (hd : p ≠ .depth) :
    p.Same s { s with registers := r } := by
  unfold Registers.push CallStack.push? at h
  split at h
  next stack hk =>
    cases h
    split at hk
    next hlt =>
      cases hk
      cases p with
      | slot k =>
        have hne : s.registers.stack.depth ≠ k := fun he => hs (congrArg slot he.symm)
        exact Vector.getElem?_set_ne hlt hne
      | depth => exact absurd rfl hd
      | _ => rfl
    next => cases hk
  next => cases h

theorem same_pop {w : UInt16} {r : Registers} (h : s.registers.pop = .ok (w, r))
    (hd : p ≠ .depth) : p.Same s { s with registers := r } := by
  unfold Registers.pop CallStack.pop? at h
  split at h
  next v stack hk =>
    cases h
    split at hk
    next hlt =>
      cases hk
      cases p with
      | depth => exact absurd rfl hd
      | _ => rfl
    next => cases hk
  next => cases h

theorem same_store {bs : List UInt8} (hl : bs.length ≤ 4096) (h : p ∉ s.indexed bs.length) :
    p.Same s { s with memory := s.memory.store s.registers.i bs } := by
  cases p with
  | byte a =>
    have hge : bs.length ≤ Address.distance s.registers.i a := by
      refine Nat.le_of_not_lt fun hlt => h (List.mem_map.mpr ⟨_, List.mem_range.mpr hlt, ?_⟩)
      rw [Address.ofNat_add_distance]
    change (s.memory.store s.registers.i bs).get a = s.memory.get a
    rw [Memory.get_store _ _ _ hl, List.getElem?_eq_none hge, Option.getD_none]
  | _ => rfl

theorem same_setTimer {t : Timer} (h : p ≠ .timer t) (c : Countdown) :
    p.Same s { s with timers := s.timers.set t c } := by
  cases p with
  | timer u =>
    have hne : u ≠ t := fun he => h (congrArg timer he)
    exact (Timers.get_set ..).trans (if_neg hne)
  | _ => rfl

theorem same_screen (hs : p ≠ .screen) (hd : p ≠ .drawFlag) (screen : Screen) (drawFlag : Bool) :
    p.Same s { s with screen, drawFlag } := by
  cases p with
  | screen => exact absurd rfl hs
  | drawFlag => exact absurd rfl hd
  | _ => rfl

theorem same_await (hw : p ≠ .waiting) (hm : p ≠ .mode) (x : Register) (mode : Mode) :
    p.Same s { s with keypad := s.keypad.await x, mode } := by
  cases p with
  | waiting => exact absurd rfl hw
  | mode => exact absurd rfl hm
  | _ => rfl

end Part

namespace Instruction

/-- The parts of the state `s` that the instruction writes. -/
def targets (s : State) : Instruction → List Part
  | clear => [.screen, .drawFlag]
  | ret => [.depth]
  | call _ => [.slot s.registers.stack.depth, .depth]
  | setByte x _ | addByte x _ | random x _ | readDelay x => [.register x]
  | operate op x _ =>
    .register x :: if op.flags then [.register Registers.flag] else []
  | setIndex _ | addIndex _ | pointGlyph _ => [.index]
  | draw .. => [.screen, .register Registers.flag, .drawFlag]
  | awaitKey _ => [.waiting, .mode]
  | setTimer t _ => [.timer t]
  | storeDecimal _ => s.indexed 3
  | storeRegisters x => s.indexed (x.val + 1)
  | loadRegisters x => Part.registersTo x
  | routine _ | jump _ | skip _ | jumpOffset _ => []

end Instruction

open Chip8.Part in
/-- An instruction changes nothing but its targets and the program counter. -/
theorem State.same_of_execute {s s' : State} {g g' : Generator} {i : Instruction}
    (h : s.execute g i = .ok (s', g')) {p : Part} (hp : p ∉ i.targets s) : p.Same s s' := by
  cases i with
  | clear =>
    cases h
    obtain ⟨hs, hd⟩ : p ≠ .screen ∧ p ≠ .drawFlag := by simpa [Instruction.targets] using hp
    exact same_screen hs hd _ _
  | ret =>
    obtain ⟨⟨w, r⟩, hr, he⟩ := Fault.ok_of_map h
    cases he
    exact (same_pop hr (List.ne_of_not_mem_cons hp)).trans (same_jump _ w p)
  | call a =>
    obtain ⟨r, hr, he⟩ := Fault.ok_of_map h
    cases he
    obtain ⟨hs, hd⟩ : p ≠ .slot s.registers.stack.depth ∧ p ≠ .depth := by
      simpa [Instruction.targets] using hp
    exact (same_push hr hs hd).trans (same_jump _ _ p)
  | routine a =>
    cases h
    exact .refl _ _
  | jump a | jumpOffset a =>
    cases h
    exact same_jump s _ p
  | skip c =>
    cases h
    exact same_skipIf s _ p
  | setByte x b | addByte x b | random x b | readDelay x =>
    cases h
    exact same_setRegister (List.ne_of_not_mem_cons hp) _
  | operate op x y =>
    cases h
    refine same_operate (List.ne_of_not_mem_cons hp) (fun hflags he => hp ?_) y
    simp [Instruction.targets, hflags, he]
  | setIndex a | addIndex x | pointGlyph x =>
    cases h
    exact same_setIndex (List.ne_of_not_mem_cons hp) _
  | draw x y rows =>
    cases h
    obtain ⟨hs, hf, hd⟩ : p ≠ .screen ∧ p ≠ .register Registers.flag ∧ p ≠ .drawFlag := by
      simpa [Instruction.targets] using hp
    exact (same_screen hs hd _ true).trans (same_setRegister hf _)
  | awaitKey x =>
    cases h
    obtain ⟨hw, hm⟩ : p ≠ .waiting ∧ p ≠ .mode := by simpa [Instruction.targets] using hp
    exact same_await hw hm _ _
  | setTimer t x =>
    cases h
    exact same_setTimer (List.ne_of_not_mem_cons hp) _
  | storeDecimal x =>
    cases h
    have hl : (decimalDigits (s.get x)).length ≤ 4096 := by simp [decimalDigits]
    exact same_store hl hp
  | storeRegisters x =>
    cases h
    have hl : (s.registers.upTo x).length = x.val + 1 := s.registers.length_upTo x
    exact same_store (by omega) (hl ▸ hp)
  | loadRegisters x =>
    cases h
    refine same_setFrom fun y _ hy he => hp ?_
    rw [Memory.length_readRange] at hy
    exact mem_registersTo.mpr ⟨y, Fin.le_def.mpr (by omega), he⟩

namespace Opcode

/-- What the words `Fxkk` write, by their last byte. -/
def transferTargets (s : State) (x : Register) : Nat → List Part
  | 0x07 => [.register x]
  | 0x0A => [.waiting, .mode]
  | 0x15 => [.timer .delay]
  | 0x18 => [.timer .sound]
  | 0x1E | 0x29 => [.index]
  | 0x33 => s.indexed 3
  | 0x55 => s.indexed (x.val + 1)
  | 0x65 => Part.registersTo x
  | _ => []

/-- What the words `8xyn` write, by their last nibble. -/
def operationTargets (x : Register) (n : Nat) : List Part :=
  if n ≤ 0x3 then [.register x]
  else if n ≤ 0x7 ∨ n = 0xE then [.register x, .register Registers.flag]
  else []

/-- The parts of the state `s` that a word writes, by its nibbles. -/
def targets (s : State) (w : Opcode) : List Part :=
  match (family w).val with
  | 0x0 => if w = 0x00E0 then [.screen, .drawFlag] else if w = 0x00EE then [.depth] else []
  | 0x2 => [.slot s.registers.stack.depth, .depth]
  | 0x6 | 0x7 | 0xC => [.register (x w)]
  | 0x8 => operationTargets (x w) (n w).val
  | 0xA => [.index]
  | 0xD => [.screen, .register Registers.flag, .drawFlag]
  | 0xF => transferTargets s (x w) (byte w).toNat
  | _ => []

theorem transferTargets_eq (s : State) (w : Opcode) (b : Nat) :
    transferTargets s (x w) b =
      ((Instruction.transfer? (x w) b).getD (.routine (address w))).targets s := by
  unfold transferTargets Instruction.transfer?
  split
  case h_10 => simp_all [Instruction.targets]
  all_goals rfl

theorem operationTargets_eq (s : State) (w : Opcode) :
    operationTargets (x w) (n w).val =
      (((Operation.ofNibble? (n w).val).map fun op => Instruction.operate op (x w) (y w)).getD
        (.routine (address w))).targets s := by
  have hn := (n w).isLt
  unfold Operation.ofNibble?
  split
  case h_10 =>
    simp only [imp_false] at *
    have h₁ : ¬ (n w).val ≤ 0x3 := by omega
    have h₂ : ¬ ((n w).val ≤ 0x7 ∨ (n w).val = 0xE) := by omega
    rw [operationTargets, if_neg h₁, if_neg h₂]
    rfl
  all_goals
    rename_i hw
    rw [hw]
    rfl

/-- The table of words and the table of instructions tell the same. -/
theorem targets_eq (s : State) (w : Opcode) : targets s w = (meaning w).targets s := by
  have hf := (family w).isLt
  unfold meaning Instruction.decode?
  split
  case h_1 hw =>
    simp only [targets, hw]
    split
    · rfl
    · split <;> rfl
  case h_9 hw =>
    simp only [targets, hw]
    exact operationTargets_eq s w
  case h_15 hw =>
    simp only [targets, hw]
    unfold Instruction.keyTest?
    split <;> rfl
  case h_16 =>
    simp only [imp_false] at *
    have hw : (family w).val = 0xF := by omega
    simp only [targets, hw]
    exact transferTargets_eq s w _
  case h_6 hw | h_10 hw =>
    simp only [targets, hw]
    split <;> rfl
  all_goals
    rename_i hw
    simp only [targets, hw]
    rfl
end Opcode

/-- Only `Cxkk` takes a random word. -/
theorem State.random_of_execute {s s' : State} {g g' : Generator} {i : Instruction}
    (h : s.execute g i = .ok (s', g')) : g' = if i.family = 0xC then g.next.2 else g := by
  cases i with
  | ret =>
    obtain ⟨_, _, he⟩ := Fault.ok_of_map h
    cases he
    rfl
  | call a =>
    obtain ⟨_, _, he⟩ := Fault.ok_of_map h
    cases he
    rfl
  | skip c => cases h; cases c <;> rfl
  | _ =>
    cases h
    rfl

namespace Machine

def stack (m : Machine) : CallStack := m.state.registers.stack

variable {m m' : Machine}

theorem same_of_step (h : m.step = .ok m') {p : Part} (hp : p ∉ m.fetched.targets m.state) :
    p.Same m.state m'.state := by
  have hf : p.Same m.state m.advanced.state := Part.same_jump m.state _ p
  obtain ⟨⟨s, g⟩, hs, rfl⟩ := Fault.ok_of_map (execute_of_step h)
  have ht : m.fetched.targets m.state = m.fetched.targets m.advanced.state := rfl
  rw [ht, Opcode.targets_eq] at hp
  exact hf.trans (State.same_of_execute hs hp)

theorem stack_of_call (h : m.step = .ok m') (hw : (Opcode.family m.fetched).val = 0x2) :
    m'.stack.toList = m.stack.toList ++ [m.advanced.pc] := by
  have he := execute_of_step h
  rw [Opcode.meaning_of_family_call hw] at he
  obtain ⟨_, hs, rfl⟩ := Fault.ok_of_map he
  obtain ⟨r, hr, hr'⟩ := Fault.ok_of_map hs
  cases hr'
  have ht : r.stack.toList = m.advanced.stack.toList ++ [m.advanced.pc] :=
    Registers.toList_push hr
  exact ht

theorem stack_of_ret (h : m.step = .ok m') (hw : m.fetched = 0x00EE) :
    ∃ a, m.stack.toList = m'.stack.toList ++ [a] ∧ m'.pc = a % 4096 := by
  have he := execute_of_step h
  rw [Opcode.meaning_eq_ret_iff.mpr hw] at he
  obtain ⟨_, hs, rfl⟩ := Fault.ok_of_map he
  obtain ⟨⟨a, r⟩, hr, hr'⟩ := Fault.ok_of_map hs
  cases hr'
  have ht : m.advanced.stack.toList = r.stack.toList ++ [a] := Registers.toList_pop hr
  exact ⟨a, ht, rfl⟩

theorem random_of_step (h : m.step = .ok m') :
    m'.random = if (Opcode.family m.fetched).val = 0xC then m.random.next.2 else m.random := by
  obtain ⟨⟨s, g⟩, hs, rfl⟩ := Fault.ok_of_map (execute_of_step h)
  have hg : g = _ := State.random_of_execute hs
  simp only [Opcode.family_meaning_random_iff] at hg
  exact hg

theorem pressed_of_step (h : m.step = .ok m') :
    m'.state.keypad.pressed = m.state.keypad.pressed := by
  rw [(footprint_of_step h).keypad]
  cases (Opcode.meaning m.fetched).awaits? <;> rfl

/-- A step changes nothing but the program counter and the targets of its word. If there are none it
only moves on. A call makes the stack one deeper and a return makes it one shallower. -/
theorem frame_of_step (h : m.step = .ok m') :
    (∀ p, p ∉ m.fetched.targets m.state → p.Same m.state m'.state) ∧
      (m.fetched.targets m.state = [] →
        m'.state = { m.state with registers := { m.state.registers with pc := m'.pc } }) ∧
      ((Opcode.family m.fetched).val = 0x2 → m'.stack.depth = m.stack.depth + 1) ∧
      (m.fetched = 0x00EE → m'.stack.depth + 1 = m.stack.depth) ∧
      m'.random =
        (if (Opcode.family m.fetched).val = 0xC then m.random.next.2 else m.random) ∧
      m'.state.keypad.pressed = m.state.keypad.pressed ∧
      m'.configuration = m.configuration ∧ m'.epoch = m.epoch := by
  have hsame : ∀ p, p ∉ m.fetched.targets m.state → p.Same m.state m'.state :=
    fun p hp => same_of_step h hp
  have hpressed := pressed_of_step h
  refine ⟨hsame, fun hn => ?_, fun hw => ?_, fun hw => ?_, random_of_step h, hpressed,
    configuration_of_step h, epoch_of_step h⟩
  · exact State.eq_of_same (fun p => hsame p (by simp [hn])) hpressed
  · simpa using congrArg List.length (stack_of_call h hw)
  · obtain ⟨a, ht, _⟩ := stack_of_ret h hw
    simpa using (congrArg List.length ht).symm

/-- The word `F255` with the index at the end of memory writes three bytes across the end, and not
the byte after them. -/
theorem frame_of_step_store :
    let b := (new {} 0).booted [0xF2, 0x55]
    let m := { b with state := b.state.setIndex 0xFFFF }
    ∃ m', m.step = .ok m' ∧
      m.fetched.targets m.state = [.byte 0xFFF, .byte 0x000, .byte 0x001] ∧
      m'.state.memory.get 0x002 = m.state.memory.get 0x002 ∧
      m'.stack.depth = m.stack.depth ∧ m'.random = m.random := by
  intro b m
  have hf : m.fetched = 0xF255 :=
    (fetched_of_memory [0xF2, 0x55] 0 (by decide) rfl (by decide) (by decide)).trans (by decide)
  have ht : m.fetched.targets m.state = [.byte 0xFFF, .byte 0x000, .byte 0x001] := by
    rw [hf]
    decide
  have hd : Instruction.decode? m.fetched = some (.storeRegisters 2) := by
    rw [hf]
    decide
  have hs : m.step = .ok _ := step_of_decode? hd
  obtain ⟨hsame, _, _, _, hrandom, _⟩ := frame_of_step hs
  rw [ht] at hsame
  rw [hf] at hrandom
  exact ⟨_, hs, ht, hsame (.byte 0x002) (by decide), hsame .depth (by decide), hrandom⟩

end Machine
end Chip8
