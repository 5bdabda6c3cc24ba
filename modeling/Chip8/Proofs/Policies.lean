import Chip8.Proofs.Reachability

/-! # Policies for unknown words

Machines that differ only in what they do at a word that is no instruction run alike until one of
them halts at such a word. The other one moves past it, and never fails for that reason. -/
namespace Chip8

theorem Fault.error_of_map {α β : Type} {f : α → β} {x : Except Fault α} {fault : Fault}
    (h : x.map f = .error fault) : x = .error fault := by
  cases x with
  | error e =>
    cases h
    rfl
  | ok a => cases h

def Fault.isUnknown : Fault → Bool
  | unknownOpcode .. => true
  | _ => false

/-- Whether the response is the fault of a word that is no instruction. -/
def Response.isUnknown : Response → Bool
  | .error fault => fault.isUnknown
  | .ok _ => false

theorem Registers.push_eq_error_iff {r : Registers} {w : UInt16} {fault : Fault} :
    r.push w = .error fault ↔ r.stack.depth = 16 ∧ fault = .stackOverflow r.current := by
  rw [← CallStack.push?_eq_none_iff r.stack w, push]
  cases r.stack.push? w with
  | none =>
    exact ⟨fun h => ⟨rfl, (Except.error.inj h).symm⟩, fun h => congrArg Except.error h.2.symm⟩
  | some stack => exact ⟨nofun, nofun⟩

theorem Registers.pop_eq_error_iff {r : Registers} {fault : Fault} :
    r.pop = .error fault ↔ r.stack.depth = 0 ∧ fault = .stackUnderflow r.current := by
  rw [← CallStack.pop?_eq_none_iff r.stack, pop]
  cases r.stack.pop? with
  | none =>
    exact ⟨fun h => ⟨rfl, (Except.error.inj h).symm⟩, fun h => congrArg Except.error h.2.symm⟩
  | some popped => exact ⟨nofun, nofun⟩

/-- Of the instructions only calls and returns fail. -/
theorem State.fault_of_execute {s : State} {g : Generator} {i : Instruction} {fault : Fault}
    (h : s.execute g i = .error fault) :
    fault = .stackOverflow s.registers.current ∨ fault = .stackUnderflow s.registers.current := by
  cases i with
  | call a => exact .inl (Registers.push_eq_error_iff.mp (Fault.error_of_map h)).2
  | ret => exact .inr (Registers.pop_eq_error_iff.mp (Fault.error_of_map h)).2
  | _ => cases h

/-- Whether the word calls a machine code routine. -/
def Opcode.IsRoutine (w : Opcode) : Prop := (family w).val = 0x0 ∧ w ≠ 0x00E0 ∧ w ≠ 0x00EE

theorem Instruction.decode?_routine {w : Opcode} (h : Opcode.IsRoutine w) :
    decode? w = some (.routine (Opcode.address w)) := by
  obtain ⟨hf, hc, hr⟩ := h
  simp only [decode?, hf, if_neg hc, if_neg hr]

namespace Machine

variable {m m' : Machine}

def withPolicy (p : UnknownOpcodePolicy) (m : Machine) : Machine :=
  { m with configuration := { m.configuration with unknownOpcode := p } }

theorem step_withPolicy {i : Instruction} (h : Instruction.decode? m.fetched = some i)
    (p : UnknownOpcodePolicy) : (m.withPolicy p).step = m.step.map (withPolicy p) := by
  have hp : Instruction.decode? (m.withPolicy p).fetched = some i := h
  rw [step_of_decode? h, step_of_decode? hp]
  change (m.advanced.state.execute m.random i).map _ =
    ((m.advanced.state.execute m.random i).map _).map _
  cases m.advanced.state.execute m.random i <;> rfl

theorem step_of_unknown (h : Instruction.decode? m.fetched = none)
    (hp : m.configuration.unknownOpcode = .skip) : m.step = .ok m.advanced := by
  rw [step, h]
  simp only [hp]

theorem step_of_halt (h : Instruction.decode? m.fetched = none)
    (hp : m.configuration.unknownOpcode = .halt) :
    m.step = .error (.unknownOpcode m.fetched m.pc) := by
  rw [step, h]
  simp only [hp]

theorem isUnknown_of_step {fault : Fault} (h : m.step = .error fault)
    (hp : m.configuration.unknownOpcode = .skip) : fault.isUnknown = false := by
  cases hd : Instruction.decode? m.fetched with
  | none =>
    rw [step_of_unknown hd hp] at h
    cases h
  | some i =>
    rw [step_of_decode? hd] at h
    rcases State.fault_of_execute (Fault.error_of_map h) with rfl | rfl <;> rfl

theorem step_skipping (h : ∀ fault, m.step = .error fault → fault.isUnknown = false) :
    (m.withPolicy .skip).step = m.step.map (withPolicy .skip) := by
  cases hd : Instruction.decode? m.fetched with
  | some i => exact step_withPolicy hd .skip
  | none =>
    have hs : (m.withPolicy .skip).step = .ok (m.withPolicy .skip).advanced :=
      step_of_unknown hd rfl
    cases hp : m.configuration.unknownOpcode with
    | skip =>
      rw [hs, step_of_unknown hd hp]
      rfl
    | halt => cases h _ (step_of_halt hd hp)

theorem tick_skipping {n : Nat} (h : (m.tick n).2.isUnknown = false) :
    (m.withPolicy .skip).tick n = ((m.tick n).1.withPolicy .skip, (m.tick n).2) := by
  by_cases hr : m.mode = .running
  · have hs : (m.withPolicy .skip).mode = .running := hr
    rw [tick_of_running hr] at h ⊢
    rw [tick_of_running hs]
    cases hb : batch n (m.withDrawFlag false) with
    | mk m' outcome =>
      rw [hb] at h
      -- The fault of a tick is the one that has ended its batch.
      have hf : ∀ fault, (batch n (m.withDrawFlag false)).2 = some fault →
          fault.isUnknown = false := by
        rw [hb]
        rintro fault ⟨⟩
        exact h
      have hl : batch n ((m.withPolicy .skip).withDrawFlag false) =
          (m'.withPolicy .skip, outcome) := by
        have hm := batch_map_of (withPolicy .skip) (fun _ => rfl) (fun _ => step_skipping)
          (fun _ => rfl) n (m.withDrawFlag false) hf
        rwa [hb] at hm
      rw [hl]
      cases outcome <;> rfl
  · have hs : (m.withPolicy .skip).mode ≠ .running := hr
    rw [tick_of_not_running hr, tick_of_not_running hs]

theorem timerTick_withPolicy (p : UnknownOpcodePolicy) (m : Machine) (t : Timer) (epoch : UInt32) :
    (m.withPolicy p).timerTick t epoch =
      ((m.timerTick t epoch).1.withPolicy p, (m.timerTick t epoch).2) := by
  have he : (m.withPolicy p).epoch = m.epoch := rfl
  unfold timerTick
  rw [he]
  split <;> rfl

theorem keyDown_withPolicy (p : UnknownOpcodePolicy) (m : Machine) (key : Key) :
    (m.withPolicy p).keyDown key = (m.keyDown key).withPolicy p := by
  obtain ⟨_, _, _, hk⟩ := m.keyDown_frame key
  rw [keyDown_congr m (m.withPolicy p) rfl rfl rfl, hk]
  rfl

theorem load_withPolicy (p : UnknownOpcodePolicy) (m : Machine) (program : List UInt8) :
    (m.withPolicy p).load program = ((m.load program).1.withPolicy p, (m.load program).2) := by
  by_cases h : program.length ≤ 3584
  · rw [load_of_le h, load_of_le h]
    rfl
  · have hlt := Nat.not_le.mp h
    rw [load_of_lt hlt, load_of_lt hlt]
    rfl

theorem respond_skipping {s : Stimulus} (h : (m.respond s).2.isUnknown = false) :
    (m.withPolicy .skip).respond s = ((m.respond s).1.withPolicy .skip, (m.respond s).2) := by
  cases s with
  | tick n => exact tick_skipping h
  | event e =>
    cases e with
    | cpuTick => exact tick_skipping h
    | timerTick t epoch => exact congrArg (Prod.map id Except.ok) (timerTick_withPolicy _ m t epoch)
    | keyDown key => exact congrArg (·, Except.ok []) (keyDown_withPolicy _ m _)
    | keyUp key => rfl
    | programLoaded program => exact load_withPolicy _ m program
    | programUnavailable reason => rfl

theorem isUnknown_of_tick (n : Nat) (hp : m.configuration.unknownOpcode = .skip) :
    (m.tick n).2.isUnknown = false := by
  rcases tick_cases n m with ⟨_, ht⟩ | ⟨m', ht⟩ | ⟨a, fault, ht⟩
  · rw [ht]
    rfl
  · rw [ht.tick_eq]
    rfl
  · rw [ht.tick_eq]
    have hc : a.configuration = m.configuration := ht.path.configuration
    exact isUnknown_of_step ht.step_eq (hc ▸ hp)

theorem isUnknown_of_respond (s : Stimulus) (hp : m.configuration.unknownOpcode = .skip) :
    (m.respond s).2.isUnknown = false := by
  cases s with
  | tick n => exact isUnknown_of_tick n hp
  | event e =>
    cases e with
    | cpuTick => exact isUnknown_of_tick _ hp
    | programLoaded program =>
      by_cases hl : program.length ≤ 3584
      · exact congrArg (Response.isUnknown ·.2) (load_of_le hl m)
      · exact congrArg (Response.isUnknown ·.2) (load_of_lt (Nat.not_le.mp hl) m)
    | _ => rfl

theorem isUnknown_of_answers {ss : List Stimulus} (hp : m.configuration.unknownOpcode = .skip) :
    ∀ r ∈ m.answers ss, r.isUnknown = false := by
  induction ss generalizing m with
  | nil => simp [answers]
  | cons s ss ih =>
    intro r hr
    rcases List.mem_cons.mp hr with rfl | hr
    · exact isUnknown_of_respond s hp
    · exact ih (by rwa [configuration_of_respond]) r hr

/-- Up to the first failure at an unknown word the policy makes no difference. -/
theorem agree_of_le_findIdx {ss : List Stimulus} {k : Nat}
    (h : k ≤ (m.answers ss).findIdx Response.isUnknown) :
    ((m.withPolicy .skip).answers ss).take k = (m.answers ss).take k ∧
      (m.withPolicy .skip).after (ss.take k) = (m.after (ss.take k)).withPolicy .skip := by
  induction ss generalizing m k with
  | nil => simp [answers, after]
  | cons s ss ih =>
    cases k with
    | zero => exact ⟨rfl, rfl⟩
    | succ k =>
      rw [answers, List.findIdx_cons] at h
      cases hu : (m.respond s).2.isUnknown with
      | true =>
        -- The first answer is already the one to be excluded.
        simp [hu] at h
      | false =>
        have hk : k ≤ ((m.respond s).1.answers ss).findIdx Response.isUnknown := by
          simpa [hu] using h
        obtain ⟨ha, hm⟩ := ih hk
        have hs := respond_skipping hu
        rw [answers, answers, hs, List.take_succ_cons, List.take_succ_cons, ha,
          List.take_succ_cons, after, after, hs, hm]
        exact ⟨rfl, rfl⟩

/-- Only the program counter has moved, to the next word. -/
def MovesOn (m m' : Machine) : Prop :=
  m'.pc.toNat = (m.pc.toNat + 2) % 4096 ∧
    m' = { m with state := { m.state with registers := { m.state.registers with pc := m'.pc } } }

theorem movesOn_advanced (m : Machine) : m.MovesOn m.advanced :=
  ⟨Registers.toNat_pc_advance _, rfl⟩

/-- Of two machines that differ only in the policy for unknown words, both answer all stimuli alike
and are alike after them as long as the one that halts at such words has not done so. The one that
skips them never fails at one, and moves on from it as from a machine code routine. -/
theorem policies_agree (m : Machine) (ss : List Stimulus) :
    let halting := m.withPolicy .halt
    let skipping := m.withPolicy .skip
    (∀ k ≤ (halting.answers ss).findIdx Response.isUnknown,
      (skipping.answers ss).take k = (halting.answers ss).take k ∧
        skipping.after (ss.take k) = (halting.after (ss.take k)).withPolicy .skip) ∧
      (∀ r ∈ skipping.answers ss, r.isUnknown = false) ∧
      (∀ a : Machine, a.configuration.unknownOpcode = .skip →
        Instruction.decode? a.fetched = none → ∃ b, a.step = .ok b ∧ a.MovesOn b) ∧
      ∀ a : Machine, Opcode.IsRoutine a.fetched → ∃ b, a.step = .ok b ∧ a.MovesOn b := by
  intro halting skipping
  refine ⟨fun k hk => ?_, isUnknown_of_answers rfl, fun a hp hd => ?_, fun a hw => ?_⟩
  · exact agree_of_le_findIdx (m := halting) hk
  · exact ⟨_, step_of_unknown hd hp, a.movesOn_advanced⟩
  · exact ⟨_, step_of_decode? (Instruction.decode?_routine hw), a.movesOn_advanced⟩

/-- The second tick fetches the word `FFFF`. -/
theorem policies_agree_skipped :
    let m := new {} 0
    let ss : List Stimulus := [.event (.programLoaded [0x60, 0x01, 0xFF, 0xFF, 0x61, 0x01]), .tick 1,
      .tick 2]
    let halting := m.withPolicy .halt
    let skipping := m.withPolicy .skip
    let a := skipping.after (ss.take 2)
    (halting.answers ss).findIdx Response.isUnknown = 2 ∧
      (skipping.answers ss).take 2 = (halting.answers ss).take 2 ∧
      a = (halting.after (ss.take 2)).withPolicy .skip ∧ ∃ b, a.step = .ok b ∧ a.MovesOn b := by
  intro m ss halting skipping a
  have hk : (halting.answers ss).findIdx Response.isUnknown = 2 := by decide +kernel
  have hd : Instruction.decode? a.fetched = none := by decide +kernel
  have hp : a.configuration.unknownOpcode = .skip := by decide +kernel
  obtain ⟨hagree, _, hskip, _⟩ := policies_agree m ss
  obtain ⟨hanswers, hafter⟩ := hagree 2 (Nat.le_of_eq hk.symm)
  exact ⟨hk, hanswers, hafter, hskip a hp hd⟩

end Machine
end Chip8
