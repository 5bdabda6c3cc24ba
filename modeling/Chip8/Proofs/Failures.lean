import Chip8.Proofs.Policies
import Chip8.Proofs.ProgramCounter
import Chip8.Proofs.Targets

/-! # Failing instructions

Which instructions fail, at what address, and what is left behind: the machine halts past the first
instruction that fails, and nothing else that this instruction would have done has happened. -/
namespace Chip8

theorem Operation.ofNibble?_eq_none_iff {n : Nat} :
    ofNibble? n = none ↔ n ∉ [0x0, 0x1, 0x2, 0x3, 0x4, 0x5, 0x6, 0x7, 0xE] := by
  unfold ofNibble?
  split <;> simp_all

namespace Instruction

variable {x : Register} {b : Nat}

theorem keyTest?_eq_none_iff : keyTest? x b = none ↔ b ∉ [0x9E, 0xA1] := by
  unfold keyTest?
  split <;> simp_all

theorem transfer?_eq_none_iff :
    transfer? x b = none ↔ b ∉ [0x07, 0x0A, 0x15, 0x18, 0x1E, 0x29, 0x33, 0x55, 0x65] := by
  unfold transfer?
  split <;> simp_all

end Instruction

/-- Whether the word matches none of the patterns of the instruction set. -/
def Opcode.IsUnknown (w : Opcode) : Prop :=
  match (family w).val with
  | 0x5 | 0x9 => (n w).val ≠ 0x0
  | 0x8 => (n w).val ∉ [0x0, 0x1, 0x2, 0x3, 0x4, 0x5, 0x6, 0x7, 0xE]
  | 0xE => (byte w).toNat ∉ [0x9E, 0xA1]
  | 0xF => (byte w).toNat ∉ [0x07, 0x0A, 0x15, 0x18, 0x1E, 0x29, 0x33, 0x55, 0x65]
  | _ => False

theorem Instruction.decode?_eq_none_iff {w : Opcode} : decode? w = none ↔ Opcode.IsUnknown w := by
  have hf := (Opcode.family w).isLt
  unfold decode? Opcode.IsUnknown
  split
  case h_1 hw =>
    simp only [hw, iff_false]
    split
    · nofun
    · split <;> nofun
  case h_6 hw | h_10 hw =>
    simp only [hw]
    split <;> simp_all
  case h_9 hw =>
    simp only [hw, Option.map_eq_none_iff]
    exact Operation.ofNibble?_eq_none_iff
  case h_15 hw =>
    simp only [hw]
    exact keyTest?_eq_none_iff
  case h_16 =>
    simp only [imp_false] at *
    have hw : (Opcode.family w).val = 0xF := by omega
    simp only [hw]
    exact transfer?_eq_none_iff
  all_goals
    rename_i hw
    simp only [hw, iff_false]
    nofun

namespace Machine

variable {m m' a : Machine} {fault : Fault}

/-- The instruction at the program counter fails. -/
inductive Faults (m : Machine) : Fault → Prop
  | unknown (word : Opcode.IsUnknown m.fetched) (halts : m.configuration.unknownOpcode = .halt) :
      Faults m (.unknownOpcode m.fetched m.pc)
  | overflow (call : (Opcode.family m.fetched).val = 0x2) (full : m.stack.depth = 16) :
      Faults m (.stackOverflow m.pc)
  | underflow (ret : m.fetched = 0x00EE) (empty : m.stack.depth = 0) :
      Faults m (.stackUnderflow m.pc)

theorem faults_of_step (h : m.pc.toNat < 4096) (hs : m.step = .error fault) : m.Faults fault := by
  have hcur : m.advanced.state.registers.current = m.pc := Registers.current_advance _ h
  cases hd : Instruction.decode? m.fetched with
  | none =>
    cases hp : m.configuration.unknownOpcode with
    | skip =>
      rw [step_of_unknown hd hp] at hs
      cases hs
    | halt =>
      cases (step_of_halt hd hp).symm.trans hs
      exact .unknown (Instruction.decode?_eq_none_iff.mp hd) hp
  | some i =>
    rw [step_of_decode? hd] at hs
    have he := Fault.error_of_map hs
    cases i with
    | call address =>
      obtain ⟨full, rfl⟩ := Registers.push_eq_error_iff.mp (Fault.error_of_map he)
      rw [hcur]
      exact .overflow (Instruction.family_of_decode? hd).symm full
    | ret =>
      obtain ⟨empty, rfl⟩ := Registers.pop_eq_error_iff.mp (Fault.error_of_map he)
      rw [hcur]
      exact .underflow (Opcode.meaning_eq_ret_iff.mp (Opcode.meaning_of_decode? hd)) empty
    | _ => cases he

theorem Faults.step_eq (h : m.pc.toNat < 4096) (hf : m.Faults fault) : m.step = .error fault := by
  have hcur : m.advanced.state.registers.current = m.pc := Registers.current_advance _ h
  cases hf with
  | unknown word halts => exact step_of_halt (Instruction.decode?_eq_none_iff.mpr word) halts
  | overflow call full =>
    have hd := Opcode.decode?_of_meaning (Opcode.meaning_of_family_call call) nofun
    have hp : m.advanced.state.registers.push m.advanced.state.registers.pc =
        .error (.stackOverflow m.pc) := Registers.push_eq_error_iff.mpr ⟨full, by rw [hcur]⟩
    rw [step_of_decode? hd, execute, State.execute, hp]
    rfl
  | underflow ret empty =>
    have hd := Opcode.decode?_of_meaning (Opcode.meaning_eq_ret_iff.mpr ret) nofun
    have hp : m.advanced.state.registers.pop = .error (.stackUnderflow m.pc) :=
      Registers.pop_eq_error_iff.mpr ⟨empty, by rw [hcur]⟩
    rw [step_of_decode? hd, execute, State.execute, hp]
    rfl

theorem Faults.withDrawFlag (h : m.Faults fault) (drawFlag : Bool) :
    (m.withDrawFlag drawFlag).Faults fault := by
  cases h with
  | unknown word halts => exact .unknown word halts
  | overflow call full => exact .overflow call full
  | underflow ret empty => exact .underflow ret empty

/-- A failing instruction has made `m'` of the machine `m`: it is past the instruction and halted,
and otherwise as it was. -/
structure HaltsAs (m m' : Machine) : Prop where
  pc : m'.pc.toNat = (m.pc.toNat + 2) % 4096
  eq : m' = { m with state := { m.state with
    registers := { m.state.registers with pc := m'.pc }
    mode := .halted } }

theorem haltsAs_failed (m : Machine) : m.HaltsAs m.failed :=
  ⟨Registers.toNat_pc_advance _, rfl⟩

/-! ## The first instruction that fails -/

theorem completed_add {k : Nat} (h : batch k m = (a, none)) (j : Nat) :
    completed (k + j) m = completed k m ++ completed j a := by
  induction k generalizing m with
  | zero =>
    cases h
    rw [Nat.zero_add]
    rfl
  | succ k ih =>
    by_cases hr : m.mode = .running
    · rw [batch, if_pos hr] at h
      cases hs : m.step with
      | ok m₁ =>
        rw [hs] at h
        rw [Nat.succ_add, completed_of_step hr hs, completed_of_step hr hs, ih h]
        rfl
      | error fault =>
        rw [hs] at h
        cases h
    · rw [batch_of_not_running hr] at h
      cases h
      have hn (n : Nat) : completed n a = [] := by
        cases n with
        | zero => rfl
        | succ n => exact if_neg hr
      rw [hn, hn, hn]
      rfl

/-- A batch that leaves a machine running has completed all of its instructions. -/
theorem length_completed {k : Nat} (h : batch k m = (a, none)) (ha : a.mode = .running) :
    (completed k m).length = k := by
  induction k generalizing m with
  | zero => rfl
  | succ k ih =>
    by_cases hr : m.mode = .running
    · rw [batch, if_pos hr] at h
      cases hs : m.step with
      | ok m₁ =>
        rw [hs] at h
        rw [completed_of_step hr hs, List.length_cons, ih h]
      | error fault =>
        rw [hs] at h
        cases h
    · rw [batch_of_not_running hr] at h
      cases h
      exact absurd ha hr

theorem batch_of_fault {k n : Nat} (hk : k < n) (h : batch k m = (a, none))
    (ha : a.mode = .running) (hs : a.step = .error fault) :
    batch n m = (a.failed, some fault) ∧ completed n m = completed k m := by
  obtain ⟨j, rfl⟩ := Nat.exists_eq_add_of_lt hk
  rw [Nat.add_assoc, batch_add, completed_add h, h]
  constructor
  · simp only [batch, if_pos ha, hs]
  · rw [completed, if_pos ha, hs]
    exact List.append_nil _

theorem exists_of_batch_fault {n : Nat} (h : batch n m = (m', some fault)) :
    ∃ k < n, ∃ a, batch k m = (a, none) ∧ a.mode = .running ∧ a.step = .error fault := by
  induction n generalizing m with
  | zero => cases h
  | succ n ih =>
    unfold batch at h
    split at h
    next hr =>
      split at h
      next m₁ hs =>
        obtain ⟨k, hk, a, hb, ha⟩ := ih h
        have hb' : batch (k + 1) m = (a, none) := by
          rw [batch, if_pos hr, hs]
          exact hb
        exact ⟨k + 1, Nat.succ_lt_succ hk, a, hb', ha⟩
      next e hs =>
        cases h
        exact ⟨0, Nat.zero_lt_succ n, m, rfl, hr, hs⟩
    next => cases h

/-- The first `k` instructions of a tick lead to `a`, whose instruction is the first to fail. -/
structure FailsAfter (m : Machine) (k : Nat) (a : Machine) (fault : Fault) : Prop where
  tick : ∃ es, m.tick k = (a, .ok es)
  executed : (m.ticked k).length = k
  running : a.mode = .running
  faults : a.Faults fault

theorem batch_of_tick {k : Nat} {es : List Effect} (hr : m.mode = .running)
    (h : m.tick k = (a, .ok es)) : batch k (m.withDrawFlag false) = (a, none) := by
  rw [tick_of_running hr] at h
  rcases hb : batch k (m.withDrawFlag false) with ⟨m', none | fault⟩ <;> rw [hb] at h <;> cases h
  rfl

theorem FailsAfter.tick_eq {k count : Nat} (hr : m.mode = .running) (ha : a.pc.toNat < 4096)
    (h : m.FailsAfter k a fault) (hk : k < count) :
    m.tick count = (a.failed, .error fault) ∧ m.ticked count = m.ticked k := by
  obtain ⟨es, ht⟩ := h.tick
  obtain ⟨hb, hc⟩ :=
    batch_of_fault hk (batch_of_tick hr ht) h.running (h.faults.step_eq ha)
  rw [tick_of_running hr, hb]
  exact ⟨rfl, hc⟩

theorem Reachable.pc_lt_of_tick {k : Nat} {r : Response} (h : m.Reachable)
    (ht : m.tick k = (a, r)) : a.pc.toNat < 4096 := by
  have hp := (h.respond (.tick k)).pc_lt
  change (m.tick k).1.pc.toNat < 4096 at hp
  rwa [ht] at hp

theorem exists_failsAfter {count : Nat} (h : m.Reachable) (hr : m.mode = .running)
    (hf : (m.tick count).2 = .error fault) : ∃ k < count, ∃ a, m.FailsAfter k a fault := by
  rw [tick_of_running hr] at hf
  rcases hb : batch count (m.withDrawFlag false) with ⟨m', none | e⟩ <;> rw [hb] at hf <;> cases hf
  obtain ⟨k, hk, a, ha, hrun, hs⟩ := exists_of_batch_fault hb
  have ht : m.tick k = (a, .ok (a.effectsSince m.state.timers)) := by rw [tick_of_running hr, ha]
  have hfaults := faults_of_step (h.pc_lt_of_tick ht) hs
  exact ⟨k, hk, a, ⟨_, ht⟩, length_completed ha hrun, hrun, hfaults⟩

/-- An instruction of a reachable running machine fails exactly if its word is unknown and the policy
is to halt, if it is a call with sixteen calls on the stack, or if it is a return with none. A tick
fails with the first of its instructions to fail. The machine that is left is the one before that
instruction, but halted and with the program counter past it. -/
theorem failing_instructions (h : m.Reachable) (hr : m.mode = .running) :
    m.fetched.toNat = 256 * (m.state.memory.get (.ofNat m.pc.toNat)).toNat +
        (m.state.memory.get (.ofNat (m.pc.toNat + 1))).toNat ∧
      (∀ fault, (m.tick 1).2 = .error fault ↔ m.Faults fault) ∧
      (∀ fault, m.Faults fault → (m.withDrawFlag false).HaltsAs (m.tick 1).1) ∧
      (∀ k a fault, m.FailsAfter k a fault → ∀ count, k < count →
        (m.tick count).2 = .error fault ∧ a.HaltsAs (m.tick count).1 ∧
          m.ticked count = m.ticked k) ∧
      ∀ count fault, (m.tick count).2 = .error fault →
        ∃ k < count, ∃ a, m.FailsAfter k a fault := by
  have tick_one {fault : Fault} (hf : m.Faults fault) :
      m.tick 1 = ((m.withDrawFlag false).failed, .error fault) := by
    have hr' : (m.withDrawFlag false).mode = .running := hr
    have hs : (m.withDrawFlag false).step = .error fault :=
      (hf.withDrawFlag false).step_eq h.pc_lt
    rw [tick_of_running hr, batch, if_pos hr', hs]
  refine ⟨m.toNat_fetched, fun fault => ⟨fun hf => ?_, fun hf => ?_⟩, fun fault hf => ?_,
    fun k a fault hk count hlt => ?_, fun count fault hf => ?_⟩
  · obtain ⟨k, hk, a, ha⟩ := exists_failsAfter h hr hf
    obtain rfl : k = 0 := by omega
    obtain ⟨es, ht⟩ := ha.tick
    have hb := batch_of_tick hr ht
    cases hb
    exact ha.faults.withDrawFlag m.state.drawFlag
  · rw [tick_one hf]
  · rw [tick_one hf]
    exact haltsAs_failed _
  · obtain ⟨es, ht⟩ := hk.tick
    obtain ⟨htick, hticked⟩ := hk.tick_eq hr (h.pc_lt_of_tick ht) hlt
    rw [htick]
    exact ⟨rfl, haltsAs_failed a, hticked⟩
  · exact exists_failsAfter h hr hf

/-- The program writes a byte to the last address and jumps to it. The word there ends with the byte
at the first address and is unknown. -/
theorem failing_instructions_wrapped :
    let m := ((new {} 0).respond (.event (.programLoaded
      [0xAF, 0xFF, 0x60, 0xE0, 0xF0, 0x55, 0x1F, 0xFF]))).1
    let a := (m.tick 4).1
    m.Reachable ∧ m.mode = .running ∧ m.FailsAfter 4 a (.unknownOpcode 0xE0F0 0xFFF) ∧
      (m.tick 9).2 = .error (.unknownOpcode 0xE0F0 0xFFF) ∧ a.HaltsAs (m.tick 9).1 ∧
      (m.tick 9).1.pc = 1 ∧ m.ticked 9 = [0xAFFF, 0x60E0, 0xF055, 0x1FFF] := by
  intro m a
  have hm : m.Reachable := .respond _ (.new {} 0)
  have hfacts : m.mode = .running ∧ (m.tick 4).2.isOk = true ∧
      m.ticked 4 = [0xAFFF, 0x60E0, 0xF055, 0x1FFF] ∧ a.mode = .running ∧ a.fetched = 0xE0F0 ∧
      a.pc = 0xFFF ∧ a.configuration.unknownOpcode = .halt := by
    decide +kernel
  obtain ⟨hr, hok, hw, hrun, hfetched, hpc, hhalt⟩ := hfacts
  have hfaults : a.Faults (.unknownOpcode a.fetched a.pc) :=
    .unknown (Instruction.decode?_eq_none_iff.mp (by rw [hfetched]; rfl)) hhalt
  rw [hfetched, hpc] at hfaults
  have hf : m.FailsAfter 4 a (.unknownOpcode 0xE0F0 0xFFF) := by
    refine ⟨?_, by rw [hw]; rfl, hrun, hfaults⟩
    cases ht : (m.tick 4).2 with
    | ok es => exact ⟨es, Prod.ext rfl ht⟩
    | error fault =>
      rw [ht] at hok
      cases hok
  obtain ⟨herror, hhalts, hticked⟩ := (failing_instructions hm hr).2.2.2.1 4 a _ hf 9 (by decide)
  have hpc' : (m.tick 9).1.pc.toNat = 1 := by rw [hhalts.pc, hpc]; rfl
  exact ⟨hm, hr, hf, herror, hhalts, UInt16.toNat_inj.mp hpc', hticked.trans hw⟩

end Machine
end Chip8
