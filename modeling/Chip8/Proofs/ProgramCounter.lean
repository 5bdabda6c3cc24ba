import Chip8.Proofs.Reachability

/-! # The program counter

Every move of the program counter goes round the end of memory, so in a reachable machine it is the
address of a byte. -/
namespace Chip8

namespace Registers

variable (r : Registers)

theorem pc_lt_jump (w : UInt16) : (r.jump w).pc.toNat < 4096 := by
  rw [toNat_pc_jump]
  exact Nat.mod_lt _ (by decide)

theorem pc_operate (op : Operation) (x y : Register) : (r.operate op x y).pc = r.pc := by
  cases op <;> rfl

theorem pc_setFrom (x : Nat) (bs : List UInt8) : (r.setFrom x bs).pc = r.pc := by
  induction bs generalizing r x with
  | nil => rfl
  | cons b bs ih =>
    unfold setFrom
    split
    · exact ih _ _
    · rfl

/-- The instruction under way is the one that the program counter was at before it advanced. -/
theorem current_advance (h : r.pc.toNat < 4096) : r.advance.current = r.pc := by
  have ha := r.toNat_pc_advance
  have hs : instructionSize.toNat = 2 := rfl
  apply UInt16.toNat_inj.mp
  rw [current, UInt16.toNat_mod, UInt16.toNat_sub, ha, hs]
  change (2 ^ 16 - 2 + (r.pc.toNat + 2) % 4096) % 2 ^ 16 % 4096 = r.pc.toNat
  omega

end Registers

theorem State.pc_lt_of_execute {s s' : State} {g g' : Generator} {i : Instruction}
    (h : s.execute g i = .ok (s', g')) (hs : s.registers.pc.toNat < 4096) :
    s'.registers.pc.toNat < 4096 := by
  cases i with
  | ret =>
    obtain ⟨⟨w, r⟩, _, he⟩ := Fault.ok_of_map h
    cases he
    exact r.pc_lt_jump w
  | call a =>
    obtain ⟨r, _, he⟩ := Fault.ok_of_map h
    cases he
    exact r.pc_lt_jump _
  | jump a | jumpOffset a =>
    cases h
    exact Registers.pc_lt_jump _ _
  | skip c =>
    cases h
    cases c.holds s with
    | false => exact hs
    | true => exact Registers.pc_lt_jump _ _
  | operate op x y =>
    cases h
    rwa [Registers.pc_operate]
  | loadRegisters x =>
    cases h
    rwa [Registers.pc_setFrom]
  | _ =>
    cases h
    exact hs

namespace Machine

variable {m m' : Machine}

theorem pc_lt_advanced (m : Machine) : m.advanced.pc.toNat < 4096 := Registers.pc_lt_jump _ _

theorem pc_lt_of_step (h : m.step = .ok m') : m'.pc.toNat < 4096 := by
  obtain ⟨_, hs, rfl⟩ := Fault.ok_of_map (execute_of_step h)
  exact State.pc_lt_of_execute hs m.pc_lt_advanced

theorem pc_lt_of_tick (hm : m.pc.toNat < 4096) (n : Nat) : (m.tick n).1.pc.toNat < 4096 :=
  tick_keeps (P := fun a => a.pc.toNat < 4096) (fun _ hs => pc_lt_of_step hs) id
    (fun _ _ => pc_lt_advanced _) hm n

theorem pc_lt_programStart : programStart.toNat < 4096 := by decide

theorem pc_lt_of_respond (hm : m.pc.toNat < 4096) (s : Stimulus) :
    (m.respond s).1.pc.toNat < 4096 := by
  cases s with
  | tick n => exact pc_lt_of_tick hm n
  | event e =>
    cases e with
    | cpuTick => exact pc_lt_of_tick hm _
    | timerTick t epoch =>
      obtain ⟨timers, ht⟩ := m.timerTick_frame t epoch
      change (m.timerTick t epoch).1.pc.toNat < 4096
      rw [ht]
      exact hm
    | keyDown key =>
      change (m.keyDown (.ofByte key)).pc.toNat < 4096
      unfold keyDown
      split <;> exact hm
    | keyUp key => exact hm
    | programLoaded program =>
      change (m.load program).1.pc.toNat < 4096
      rcases load_cases m program with hl | ⟨fault, hl⟩ <;> rw [hl] <;> exact pc_lt_programStart
    | programUnavailable reason => exact pc_lt_programStart

theorem Reachable.pc_lt (h : m.Reachable) : m.pc.toNat < 4096 := by
  induction h with
  | new c key => exact pc_lt_programStart
  | respond s _ ih => exact pc_lt_of_respond ih s

/-- The word at the program counter is made of two bytes, of which the second may lie at the start
of memory. -/
theorem toNat_fetched (m : Machine) :
    m.fetched.toNat = 256 * (m.state.memory.get (.ofNat m.pc.toNat)).toNat +
      (m.state.memory.get (.ofNat (m.pc.toNat + 1))).toNat := by
  have hn : Address.ofWord (m.pc + 1) = .ofNat (m.pc.toNat + 1) := Address.ofWord_add m.pc 1
  rw [fetched, Memory.toNat_readWord, Memory.read, Memory.read, hn]
  rfl

end Machine
end Chip8
