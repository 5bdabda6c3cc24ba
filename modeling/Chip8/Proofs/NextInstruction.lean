import Chip8.Proofs.Calls
import Chip8.Proofs.Failures

/-! # The next instruction

Where the program counter is after a successful step. Fetching has moved it past the instruction
already, so skipping moves it by four in all, and a call pushes the address behind itself. -/
namespace Chip8

/-- The word is one that skips, and its test holds in the state. -/
inductive Opcode.Skips (w : Opcode) (s : State) : Prop
  | byteEqual (word : (family w).val = 0x3) (holds : s.get (x w) = byte w)
  | byteDiffers (word : (family w).val = 0x4) (holds : s.get (x w) ≠ byte w)
  | equal (word : (family w).val = 0x5) (last : (n w).val = 0x0) (holds : s.get (x w) = s.get (y w))
  | differs (word : (family w).val = 0x9) (last : (n w).val = 0x0)
      (holds : s.get (x w) ≠ s.get (y w))
  | keyDown (word : (family w).val = 0xE) (last : (byte w).toNat = 0x9E)
      (holds : s.keypad.isPressed (.ofNat (s.get (x w)).toNat) = true)
  | keyUp (word : (family w).val = 0xE) (last : (byte w).toNat = 0xA1)
      (holds : s.keypad.isPressed (.ofNat (s.get (x w)).toNat) = false)

theorem Instruction.skips_of_decode? {w : Opcode} {c : Condition} {s : State}
    (h : decode? w = some (.skip c)) (hc : c.holds s = true) : w.Skips s := by
  have hf := (family_of_decode? h).symm
  cases c with
  | byteEqual x b =>
    simp only [decode?, hf, family] at h
    cases h
    exact .byteEqual hf (beq_iff_eq.mp hc)
  | byteDiffers x b =>
    simp only [decode?, hf, family] at h
    cases h
    exact .byteDiffers hf (bne_iff_ne.mp hc)
  | equal x y =>
    simp only [decode?, hf, family] at h
    split at h <;> cases h
    exact .equal hf ‹_› (beq_iff_eq.mp hc)
  | differs x y =>
    simp only [decode?, hf, family] at h
    split at h <;> cases h
    exact .differs hf ‹_› (bne_iff_ne.mp hc)
  | keyDown x =>
    simp only [decode?, hf, family, keyTest?] at h
    split at h <;> cases h
    exact .keyDown hf ‹_› hc
  | keyUp x =>
    simp only [decode?, hf, family, keyTest?] at h
    split at h <;> cases h
    exact .keyUp hf ‹_› (Bool.not_eq_true' _ |>.mp hc)

theorem Opcode.Skips.exists_condition {w : Opcode} {s : State} (h : w.Skips s) :
    ∃ c, Instruction.decode? w = some (.skip c) ∧ c.holds s = true := by
  cases h with
  | byteEqual word holds =>
    refine ⟨.byteEqual (x w) (byte w), ?_, beq_iff_eq.mpr holds⟩
    simp only [Instruction.decode?, word]
  | byteDiffers word holds =>
    refine ⟨.byteDiffers (x w) (byte w), ?_, bne_iff_ne.mpr holds⟩
    simp only [Instruction.decode?, word]
  | equal word last holds =>
    refine ⟨.equal (x w) (y w), ?_, beq_iff_eq.mpr holds⟩
    simp only [Instruction.decode?, word, last, if_true]
  | differs word last holds =>
    refine ⟨.differs (x w) (y w), ?_, bne_iff_ne.mpr holds⟩
    simp only [Instruction.decode?, word, last, if_true]
  | keyDown word last holds =>
    refine ⟨.keyDown (x w), ?_, holds⟩
    simp only [Instruction.decode?, word, last, Instruction.keyTest?]
  | keyUp word last holds =>
    refine ⟨.keyUp (x w), ?_, Bool.not_eq_true' _ |>.mpr holds⟩
    simp only [Instruction.decode?, word, last, Instruction.keyTest?]

/-- Whether the instruction moves the program counter in the state `s`. -/
def Instruction.redirects (s : State) : Instruction → Bool
  | ret | jump _ | call _ | jumpOffset _ => true
  | skip c => c.holds s
  | _ => false

theorem State.pc_of_execute {s s' : State} {g g' : Generator} {i : Instruction}
    (h : s.execute g i = .ok (s', g')) (hi : i.redirects s = false) :
    s'.registers.pc = s.registers.pc := by
  cases i with
  | ret | jump | call | jumpOffset => cases hi
  | skip c =>
    cases h
    have hc : c.holds s = false := hi
    rw [Registers.skipIf, hc]
    rfl
  | operate op x y =>
    cases h
    exact Registers.pc_operate ..
  | loadRegisters x =>
    cases h
    exact Registers.pc_setFrom ..
  | _ =>
    cases h
    rfl

namespace Machine

variable {m m' : Machine}

/-! ## Return addresses -/

/-- Every live return address is the address of a byte. -/
def ReturnsInMemory (m : Machine) : Prop := ∀ a ∈ m.stack.toList, a.toNat < 4096

namespace ReturnsInMemory

theorem of_empty (h : m.stack.depth = 0) : m.ReturnsInMemory := by
  have hl : m.stack.toList = [] := List.eq_nil_of_length_eq_zero (m.stack.length_toList.trans h)
  intro a ha
  rw [hl] at ha
  cases ha

theorem step (h : m.ReturnsInMemory) (hs : m.step = .ok m') : m'.ReturnsInMemory := by
  intro a ha
  rcases stack_cases hs with ⟨_, hc⟩ | ⟨_, b, hr, _⟩ | ⟨_, _, ho⟩
  · rw [hc] at ha
    rcases List.mem_append.mp ha with hm | hm
    · exact h a hm
    · obtain rfl := List.mem_singleton.mp hm
      exact m.pc_lt_advanced
  · refine h a ?_
    rw [hr]
    exact List.mem_append_left _ ha
  · exact h a (ho ▸ ha)

theorem tick (h : m.ReturnsInMemory) (n : Nat) : (m.tick n).1.ReturnsInMemory :=
  tick_keeps step id (fun ha _ => ha) h n

theorem respond (h : m.ReturnsInMemory) (s : Stimulus) : (m.respond s).1.ReturnsInMemory := by
  cases s with
  | tick n => exact h.tick n
  | event e =>
    cases e with
    | cpuTick => exact h.tick _
    | timerTick t epoch =>
      obtain ⟨timers, ht⟩ := m.timerTick_frame t epoch
      change (m.timerTick t epoch).1.ReturnsInMemory
      rw [ht]
      exact h
    | keyDown key =>
      intro a ha
      exact h a (m.stack_of_keyDown (.ofByte key) ▸ ha)
    | keyUp key => exact h
    | programLoaded program => exact .of_empty (depth_of_load rfl)
    | programUnavailable reason => exact .of_empty (depth_of_load rfl)

end ReturnsInMemory

theorem Reachable.returnsInMemory (h : m.Reachable) : m.ReturnsInMemory := by
  induction h with
  | new c key => exact .of_empty rfl
  | respond s _ ih => exact ih.respond s

/-! ## Where a step leads -/

theorem toNat_address_mod (w : Opcode) :
    (Opcode.address w).toWord.toNat % 4096 = w.toNat % 4096 := by
  rw [Address.toNat_toWord, Opcode.address, Address.val_ofWord, Nat.mod_mod]

theorem pc_of_jump (h : m.step = .ok m') (hw : (Opcode.family m.fetched).val = 0x1) :
    m'.pc.toNat = m.fetched.toNat % 4096 := by
  have he := execute_of_step h
  rw [Opcode.meaning_of_family_jump hw] at he
  cases he
  exact (Registers.toNat_pc_jump _ _).trans (toNat_address_mod _)

theorem pc_of_call (h : m.step = .ok m') (hw : (Opcode.family m.fetched).val = 0x2) :
    m'.pc.toNat = m.fetched.toNat % 4096 := by
  have he := execute_of_step h
  rw [Opcode.meaning_of_family_call hw] at he
  obtain ⟨_, hs, rfl⟩ := Fault.ok_of_map he
  obtain ⟨r, _, hr⟩ := Fault.ok_of_map hs
  cases hr
  exact (Registers.toNat_pc_jump _ _).trans (toNat_address_mod _)

/-- Returning takes no bits off the address, as it is one of a byte. -/
theorem stack_eq_of_ret (h : m.step = .ok m') (hm : m.ReturnsInMemory)
    (hw : m.fetched = 0x00EE) : m.stack.toList = m'.stack.toList ++ [m'.pc] := by
  obtain ⟨a, ha, hj⟩ := stack_of_ret h hw
  have hlt : a.toNat < 4096 := hm a (by simp [ha])
  have heq : a % 4096 = a := by
    apply UInt16.toNat_inj.mp
    rw [UInt16.toNat_mod]
    exact Nat.mod_eq_of_lt hlt
  rw [hj, heq, ha]

theorem pc_of_jumpOffset (h : m.step = .ok m') (hw : (Opcode.family m.fetched).val = 0xB) :
    m'.pc.toNat = (m.fetched.toNat % 4096 + (m.state.get 0).toNat) % 4096 := by
  have he := execute_of_step h
  rw [Opcode.meaning_of_family_jumpOffset hw] at he
  cases he
  have ha := toNat_address_mod m.fetched
  have hv : (m.state.get 0).toUInt16.toNat = (m.state.get 0).toNat := UInt8.toNat_toUInt16 _
  refine (Registers.toNat_pc_jump _ _).trans ?_
  change ((m.state.get 0).toUInt16 + (Opcode.address m.fetched).toWord).toNat % 4096 = _
  rw [UInt16.toNat_add, hv]
  omega

theorem toNat_pc_advanced (m : Machine) : m.advanced.pc.toNat = (m.pc.toNat + 2) % 4096 :=
  Registers.toNat_pc_advance _

/-- The fetch changes nothing that is tested. -/
theorem holds_advanced (c : Condition) (m : Machine) :
    c.holds m.advanced.state = c.holds m.state := by
  cases c <;> rfl

theorem pc_of_skips (h : m.step = .ok m') (hw : m.fetched.Skips m.state) :
    m'.pc.toNat = (m.pc.toNat + 4) % 4096 := by
  obtain ⟨c, hd, hc⟩ := hw.exists_condition
  have he := execute_of_step h
  rw [Opcode.meaning_of_decode? hd] at he
  cases he
  have ha := m.toNat_pc_advanced
  change (Registers.skipIf _ (c.holds m.advanced.state)).pc.toNat = _
  rw [holds_advanced, hc]
  refine (Registers.toNat_pc_advance _).trans ?_
  change (m.advanced.pc.toNat + 2) % 4096 = _
  omega

theorem pc_of_other (h : m.step = .ok m')
    (hf : (Opcode.family m.fetched).val ∉ [0x1, 0x2, 0xB]) (hr : m.fetched ≠ 0x00EE)
    (hn : ¬ m.fetched.Skips m.state) : m'.pc.toNat = (m.pc.toNat + 2) % 4096 := by
  have hi : (Opcode.meaning m.fetched).redirects m.advanced.state = false := by
    cases hi : Opcode.meaning m.fetched with
    | jump a | call a | jumpOffset a =>
      refine absurd ?_ hf
      rw [Opcode.family_of_meaning hi nofun]
      simp [Instruction.family]
    | ret => exact absurd (Opcode.meaning_eq_ret_iff.mp hi) hr
    | skip c =>
      refine Bool.eq_false_iff.mpr fun hc => hn ?_
      rw [Instruction.redirects, holds_advanced] at hc
      exact Instruction.skips_of_decode? (Opcode.decode?_of_meaning hi nofun) hc
    | _ => rfl
  obtain ⟨_, hs, rfl⟩ := Fault.ok_of_map (execute_of_step h)
  exact (congrArg UInt16.toNat (State.pc_of_execute hs hi)).trans m.toNat_pc_advanced

/-- The machine `m'` goes on where the word that `m` has fetched says. -/
structure GoesOn (m m' : Machine) : Prop where
  jump : (Opcode.family m.fetched).val = 0x1 → m'.pc.toNat = m.fetched.toNat % 4096
  call : (Opcode.family m.fetched).val = 0x2 → m'.pc.toNat = m.fetched.toNat % 4096 ∧
    ∃ a, m'.stack.toList = m.stack.toList ++ [a] ∧ a.toNat = (m.pc.toNat + 2) % 4096
  ret : m.fetched = 0x00EE → m.stack.toList = m'.stack.toList ++ [m'.pc]
  jumpOffset : (Opcode.family m.fetched).val = 0xB →
    m'.pc.toNat = (m.fetched.toNat % 4096 + (m.state.get 0).toNat) % 4096
  skip : m.fetched.Skips m.state → m'.pc.toNat = (m.pc.toNat + 4) % 4096
  other : (Opcode.family m.fetched).val ∉ [0x1, 0x2, 0xB] → m.fetched ≠ 0x00EE →
    ¬ m.fetched.Skips m.state → m'.pc.toNat = (m.pc.toNat + 2) % 4096

theorem goesOn_of_step (h : m.step = .ok m') (hm : m.ReturnsInMemory) : m.GoesOn m' where
  jump := pc_of_jump h
  call := fun hw => ⟨pc_of_call h hw, _, stack_of_call h hw, m.toNat_pc_advanced⟩
  ret := stack_eq_of_ret h hm
  jumpOffset := pc_of_jumpOffset h
  skip := pc_of_skips h
  other := pc_of_other h

/-- No word looks at the draw flag. -/
theorem GoesOn.of_withDrawFlag {drawFlag : Bool} (h : (m.withDrawFlag drawFlag).GoesOn m') :
    m.GoesOn m' := by
  have hs : m.fetched.Skips (m.withDrawFlag drawFlag).state ↔ m.fetched.Skips m.state := by
    constructor <;> intro hw <;> obtain ⟨c, hd, hc⟩ := hw.exists_condition <;>
      exact Instruction.skips_of_decode? hd (by cases c <;> exact hc)
  exact ⟨h.jump, h.call, h.ret, h.jumpOffset, fun hw => h.skip (hs.mpr hw),
    fun hf hr hn => h.other hf hr fun hw => hn (hs.mp hw)⟩

theorem step_of_tick_one {es : List Effect} (hr : m.mode = .running)
    (h : m.tick 1 = (m', .ok es)) : (m.withDrawFlag false).step = .ok m' := by
  rw [tick_one_of_running hr] at h
  cases hs : (m.withDrawFlag false).step with
  | ok a =>
    rw [hs] at h
    cases h
    rfl
  | error fault =>
    rw [hs] at h
    cases h

/-- A tick of one instruction of a reachable running machine succeeds unless the instruction is one
that fails. The program counter is then at the target of a jump or call, at the address that a
return has taken off the stack, behind the next instruction if the word skips it, and at the next
instruction after any other word. -/
theorem next_instruction (h : m.Reachable) (hr : m.mode = .running) :
    m.fetched.toNat = 256 * (m.state.memory.get (.ofNat m.pc.toNat)).toNat +
        (m.state.memory.get (.ofNat (m.pc.toNat + 1))).toNat ∧
      (∀ m' es, m.tick 1 = (m', .ok es) → m.GoesOn m') ∧
      ((∃ m' es, m.tick 1 = (m', .ok es)) ↔ ∀ fault, ¬ m.Faults fault) := by
  refine ⟨m.toNat_fetched, fun m' es ht => ?_, ?_, fun hf => ?_⟩
  · exact (goesOn_of_step (step_of_tick_one hr ht) h.returnsInMemory).of_withDrawFlag
  · rintro ⟨m', es, ht⟩ fault hf
    have hs : (m.withDrawFlag false).step = .error fault :=
      (hf.withDrawFlag false).step_eq h.pc_lt
    cases hs.symm.trans (step_of_tick_one hr ht)
  · cases hs : (m.withDrawFlag false).step with
    | ok m' => exact ⟨m', _, by rw [tick_one_of_running hr, hs]⟩
    | error fault =>
      have hf' := faults_of_step (m := m.withDrawFlag false) h.pc_lt hs
      exact absurd (hf'.withDrawFlag m.state.drawFlag) (hf fault)

/-- The word at the last address ends with the byte at the first, which is what `V0` holds. -/
theorem next_instruction_wrapped :
    let m := (((new {} 0).respond (.event (.programLoaded
      [0x60, 0x30, 0xAF, 0xFF, 0xF0, 0x55, 0x60, 0xF0, 0x1F, 0xFF]))).1.respond (.tick 5)).1
    m.Reachable ∧ m.mode = .running ∧ m.pc = 0xFFF ∧ m.fetched = 0x30F0 ∧
      ∃ m' es, m.tick 1 = (m', .ok es) ∧ m'.pc.toNat = 3 := by
  intro m
  have hm : m.Reachable := .respond _ (.respond _ (.new {} 0))
  have hfacts : m.mode = .running ∧ m.pc = 0xFFF ∧ m.fetched = 0x30F0 ∧ m.state.get 0 = 0xF0 ∧
      (m.tick 1).2.isOk = true := by
    decide +kernel
  obtain ⟨hr, hpc, hw, hv, hok⟩ := hfacts
  have hskips : m.fetched.Skips m.state := by
    rw [hw]
    exact .byteEqual (by decide) hv
  rcases ht : m.tick 1 with ⟨m', fault | es⟩
  · rw [ht] at hok
    cases hok
  · have hnext := ((next_instruction hm hr).2.1 m' es ht).skip hskips
    rw [hpc] at hnext
    exact ⟨hm, hr, hpc, hw, m', es, rfl, hnext⟩

end Machine
end Chip8
