import Chip8.Proofs.Bounds

/-! # The guarded machine

A machine whose sums, products and differences are made in words that may have no room for them,
whose stack is worked on as it is stored, and which traps where a result has no room or an index
leaves its array. It does what the machine does, so that no stimulus makes it trap. -/
namespace Chip8

/-! ## Registers -/

namespace StoredRegisters

/-- The registers that are stored, unless the count has left the array. -/
def checked (s : StoredRegisters) : Except Breakdown Registers :=
  if h : s.sp.toNat ≤ 16 then .ok ⟨s.v, s.i, s.pc, ⟨s.slots, s.sp.toNat, h⟩⟩ else .error .trap

theorem checked_stored (r : Registers) : r.stored.checked = .ok r := by
  have hsp := r.toNat_sp_stored
  have hle := r.stack.depth_le
  rw [checked, dif_pos (hsp ▸ hle)]
  simp only [hsp]
  rfl

end StoredRegisters

namespace Registers

/-- Works on the registers as they are stored. -/
def inPlace {α : Type} (r : Registers) (p : InPlace α) : Except Breakdown (α × Registers) :=
  match p.run r.stored with
  | .ok a s => s.checked.map fun r' => (a, r')
  | .error e _ => .error e

theorem inPlace_push (r : Registers) (w : UInt16) :
    r.inPlace (StoredRegisters.push w) = ((r.push w).map fun r' => ((), r')).mapError .fault := by
  rw [inPlace, run_push_stored]
  cases r.push w with
  | ok r' =>
    simp only [StoredRegisters.checked_stored]
    rfl
  | error fault => rfl

theorem inPlace_pop (r : Registers) : r.inPlace StoredRegisters.pop = r.pop.mapError .fault := by
  rw [inPlace, run_pop_stored]
  cases r.pop with
  | ok p =>
    simp only [StoredRegisters.checked_stored]
    rfl
  | error fault => rfl

end Registers

/-! ## Sprites -/

/-- The columns are summed in words of sixteen bits, the smallest that coordinates may have. -/
def guardedRowHits (x y : Nat) (row : UInt8) : Except Breakdown (List Pixel) :=
  ((List.range 8).filter (spriteBit row)).mapM fun k =>
    (fitWord (x + k)).map fun column => .wrap column.toNat y

/-- The pixels under the set bits of the rows of a sprite from its row `k` on. -/
def guardedHits (x y k : Nat) : List UInt8 → Except Breakdown (List Pixel)
  | [] => .ok []
  | row :: rows => do
    let line ← fitWord (y + k)
    let hits ← guardedRowHits x line.toNat row
    let below ← guardedHits x y (k + 1) rows
    pure (hits ++ below)

theorem mapM_eq_ok {ε α β : Type} {f : α → Except ε β} {g : α → β} {as : List α}
    (h : ∀ a ∈ as, f a = .ok (g a)) : as.mapM f = .ok (as.map g) := by
  induction as with
  | nil => rfl
  | cons a as ih =>
    rw [List.mapM_cons, h a (by simp), ih fun b hb => h b (by simp [hb])]
    rfl

theorem guardedRowHits_eq {x : Nat} (hx : x + 7 < 65536) (y : Nat) (row : UInt8) :
    guardedRowHits x y row = .ok (rowHits x y row) := by
  apply mapM_eq_ok
  intro k hk
  have hlt : k < 8 := List.mem_range.mp (List.mem_filter.mp hk).1
  have hcolumn : (UInt16.ofNat (x + k)).toNat = x + k := by
    rw [UInt16.toNat_ofNat']
    omega
  rw [fitWord_of_lt (by omega), Except.map, hcolumn]

theorem guardedHits_eq {x y k : Nat} (hx : x + 7 < 65536) {rows : List UInt8}
    (hy : y + k + rows.length ≤ 65536) :
    guardedHits x y k rows = .ok (spriteHits x (y + k) rows) := by
  induction rows generalizing k with
  | nil => rfl
  | cons row rows ih =>
    rw [List.length_cons] at hy
    have hline : (UInt16.ofNat (y + k)).toNat = y + k := by
      rw [UInt16.toNat_ofNat']
      omega
    have hrest := ih (k := k + 1) (by omega)
    rw [guardedHits, fitWord_of_lt (by omega), hrest]
    simp only [Except.bind, bind, hline, guardedRowHits_eq hx]
    rfl

namespace Countdown

/-- A period that takes one off the value and then looks at what is left. -/
def guardedStep (c : Countdown) : Except Breakdown (Countdown × Period) :=
  if !c.running then .ok (c, .idle)
  else if c.value = 0 then .ok (⟨c.value, false⟩, .stopped)
  else
    (difference c.value.toNat 1).map fun n =>
      if 0 < n then (⟨.ofNat n, true⟩, .again) else (⟨.ofNat n, false⟩, .stopped)

theorem guardedStep_eq (c : Countdown) : c.guardedStep = .ok c.step := by
  cases hr : c.running with
  | false => simp [guardedStep, hr, step_of_idle hr]
  | true =>
    by_cases hz : c.value = 0
    · have hle : c.value.toNat ≤ 1 := by
        rw [hz]
        decide
      simp [guardedStep, hr, hz, step_of_le hr hle, idle]
    · have hpos : 1 ≤ c.value.toNat := Nat.pos_of_ne_zero fun h => hz (UInt8.toNat.inj h)
      rw [guardedStep, hr, if_neg hz, difference_of_le hpos]
      -- The last unit is a case of its own, as `step` looks at the value before it takes one off.
      by_cases hv : c.value.toNat ≤ 1
      · have hone : c.value.toNat - 1 = 0 := by omega
        simp [step_of_le hr hv, hone, Except.map, idle]
      · have hlt : 0 < c.value.toNat - 1 := by omega
        have hsub : UInt8.ofNat (c.value.toNat - 1) = c.value - 1 := by
          have hle := UInt8.toNat_sub_of_le c.value 1 (UInt8.le_iff_toNat_le.mpr hpos)
          rw [← UInt8.toNat_one, ← hle, UInt8.ofNat_toNat]
        rw [step_of_lt hr (Nat.not_le.mp hv), Except.map, if_pos hlt, hsub]
        rfl

end Countdown

/-- The program is copied to a slice, which may not reach behind the end of memory. -/
def Memory.guardedLoad (m : Memory) (start : UInt16) (program : List UInt8) :
    Except Breakdown Memory :=
  (difference 4096 (Address.ofWord start).val).bind fun room =>
    if room < program.length then .error (.fault (.programTooLarge program.length room))
    else if (Address.ofWord start).val + program.length ≤ 4096 then .ok (m.store start program)
    else .error .trap

theorem Memory.guardedLoad_eq (m : Memory) (start : UInt16) (program : List UInt8) :
    m.guardedLoad start program = (m.load start program).mapError .fault := by
  have hs := (Address.ofWord start).isLt
  have hd : difference 4096 (Address.ofWord start).val = .ok (room start) :=
    difference_of_le (Nat.le_of_lt hs)
  have hroom : room start = 4096 - (Address.ofWord start).val := rfl
  rw [guardedLoad, hd, load]
  simp only [Except.bind]
  by_cases h : program.length ≤ room start
  · rw [if_neg (by omega), if_pos (by omega), if_pos h]
    rfl
  · rw [if_pos (by omega), if_neg h]
    rfl

/-! ## Instructions -/

namespace State

def guardedDraw (s : State) (x y : Register) (rows : Nibble) : Except Breakdown State :=
  let sprite := s.memory.readRange s.registers.i rows.val
  (guardedHits (s.get x).toNat (s.get y).toNat 0 sprite).map fun hits =>
    let drawn := s.screen.toggle false hits
    { s with
      screen := drawn.1
      registers := s.registers.set Registers.flag (if drawn.2 then 1 else 0)
      drawFlag := true }

theorem guardedDraw_eq (s : State) (x y : Register) (rows : Nibble) :
    s.guardedDraw x y rows = .ok (s.draw x y rows) := by
  have hx := (s.get x).toNat_lt
  have hy := (s.get y).toNat_lt
  have hrows := rows.isLt
  rw [guardedDraw, guardedHits_eq (by omega) (by rw [Memory.length_readRange]; omega)]
  rfl

/-- All other instructions wrap their sums and mask their indices, which leaves nothing to guard. -/
def guardedExecute (s : State) (g : Generator) : Instruction → Except Breakdown (State × Generator)
  | .ret =>
    (s.registers.inPlace StoredRegisters.pop).map fun (w, r) =>
      ({ s with registers := r.jump w }, g)
  | .call a =>
    (s.registers.inPlace (StoredRegisters.push s.registers.pc)).map fun (_, r) =>
      ({ s with registers := r.jump a.toWord }, g)
  | .jumpOffset a =>
    (fitWord ((s.get (Nibble.ofNat 0)).toNat + a.toWord.toNat)).map fun w => (s.jump w, g)
  | .draw x y rows => (s.guardedDraw x y rows).map fun s' => (s', g)
  | .pointGlyph x => (fitWord ((s.get x).toNat % 16 * 5)).map fun w => (s.setIndex w, g)
  | i => (s.execute g i).mapError .fault

theorem guardedExecute_eq (s : State) (g : Generator) (i : Instruction) :
    s.guardedExecute g i = (s.execute g i).mapError .fault := by
  cases i with
  | ret =>
    rw [guardedExecute, Registers.inPlace_pop, execute]
    cases s.registers.pop <;> rfl
  | call a =>
    rw [guardedExecute, Registers.inPlace_push, execute]
    cases s.registers.push s.registers.pc <;> rfl
  | jumpOffset a =>
    have hv := (s.get (Nibble.ofNat 0)).toNat_lt
    have ha : a.toWord.toNat < 4096 := by
      rw [Address.toNat_toWord]
      exact a.isLt
    have hw : UInt16.ofNat ((s.get (Nibble.ofNat 0)).toNat + a.toWord.toNat) =
        (s.get (Nibble.ofNat 0)).toUInt16 + a.toWord := by
      rw [UInt16.ofNat_add, UInt16.ofNat_toNat, UInt16.ofNat_uInt8ToNat]
    rw [guardedExecute, fitWord_of_lt (by omega), execute, Except.map, hw]
    rfl
  | draw x y rows =>
    rw [guardedExecute, guardedDraw_eq]
    rfl
  | pointGlyph x =>
    have hw : UInt16.ofNat ((s.get x).toNat % 16 * 5) = glyphAddress (s.get x) := by
      apply UInt16.toNat.inj
      rw [glyphAddress, UInt16.toNat_mul, UInt8.toNat_toUInt16, UInt8.toNat_mod,
        UInt16.toNat_ofNat']
      rfl
    rw [guardedExecute, fitWord_of_lt (by omega), execute, Except.map, hw]
    rfl
  | _ => rfl

end State

/-! ## Machines -/

namespace Machine

def guardedStep (m : Machine) : Except Breakdown Machine :=
  match Instruction.decode? m.fetched with
  | some i =>
    (m.advanced.state.guardedExecute m.random i).map fun (state, random) =>
      { m.advanced with state, random }
  | none => m.step.mapError .fault

def guardedBatch : Nat → Machine → Machine × Option Breakdown
  | 0, m => (m, none)
  | n + 1, m =>
    if m.mode = .running then
      match m.guardedStep with
      | .ok m' => guardedBatch n m'
      | .error e => (m.failed, some e)
    else (m, none)

def guardedTick (count : Nat) (m : Machine) : Machine × Except Breakdown (List Effect) :=
  if m.mode = .running then
    match guardedBatch count (m.withDrawFlag false) with
    | (m', some e) => (m', .error e)
    | (m', none) =>
      (m', .ok (m'.renderings ++ (m'.startedTimers m.state.timers).map m'.schedule))
  else (m, .ok [])

def guardedTimerTick (t : Timer) (epoch : UInt32) (m : Machine) :
    Machine × Except Breakdown (List Effect) :=
  if epoch = m.epoch then
    let c := m.state.timers.get t
    match c.guardedStep with
    | .ok (c', period) =>
      let sounds := if t = .sound ∧ c.running ∧ c.value ≠ 0 then [.playSound] else []
      let again := if period = .again then [m.schedule t] else []
      ({ m with state := { m.state with timers := m.state.timers.set t c' } },
        .ok (sounds ++ again))
    | .error e => (m, .error e)
  else (m, .ok [])

def guardedLoad (program : List UInt8) (m : Machine) :
    Machine × Except Breakdown (List Effect) :=
  match m.reset.state.memory.guardedLoad programStart program with
  | .ok memory =>
    ({ m.reset with state := { m.reset.state with memory, mode := .running } },
      .ok [.render m.reset.state.screen])
  | .error e => (m.reset, .error e)

/-- Keys and programs that are not there leave nothing to guard. -/
def guardedRespond (m : Machine) : Stimulus → Machine × Except Breakdown (List Effect)
  | .tick n => m.guardedTick n
  | .event .cpuTick => m.guardedTick m.configuration.instructionsPerTick.toNat
  | .event (.timerTick t epoch) => m.guardedTimerTick t epoch
  | .event (.programLoaded program) => m.guardedLoad program
  | .event e => ((m.handle e).1, (m.handle e).2.mapError .fault)

variable (m : Machine)

theorem guardedStep_eq : m.guardedStep = m.step.mapError .fault := by
  unfold guardedStep
  split
  next i hi =>
    rw [step_of_decode? hi, State.guardedExecute_eq]
    unfold execute
    change ((m.advanced.state.execute m.random i).mapError Breakdown.fault).map _ =
      ((m.advanced.state.execute m.random i).map _).mapError .fault
    cases m.advanced.state.execute m.random i <;> rfl
  next => rfl

theorem guardedBatch_eq (n : Nat) :
    guardedBatch n m = ((batch n m).1, (batch n m).2.map .fault) := by
  induction n generalizing m with
  | zero => rfl
  | succ n ih =>
    rw [guardedBatch, batch, guardedStep_eq]
    split
    next =>
      cases m.step with
      | ok m' => exact ih m'
      | error fault => rfl
    next => rfl

theorem guardedTick_eq (n : Nat) :
    m.guardedTick n = ((m.tick n).1, (m.tick n).2.mapError .fault) := by
  rw [guardedTick, tick, guardedBatch_eq]
  split
  next =>
    rcases batch n (m.withDrawFlag false) with ⟨m', _ | fault⟩ <;> rfl
  next => rfl

theorem guardedTimerTick_eq (t : Timer) (epoch : UInt32) :
    m.guardedTimerTick t epoch = ((m.timerTick t epoch).1, .ok (m.timerTick t epoch).2) := by
  unfold guardedTimerTick timerTick
  simp only [Countdown.guardedStep_eq]
  split <;> rfl

theorem guardedLoad_eq (program : List UInt8) :
    m.guardedLoad program = ((m.load program).1, (m.load program).2.mapError .fault) := by
  rw [guardedLoad, load, Memory.guardedLoad_eq]
  cases m.reset.state.memory.load programStart program <;> rfl

/-- Guards change nothing. -/
theorem guardedRespond_eq (s : Stimulus) :
    m.guardedRespond s = ((m.respond s).1, (m.respond s).2.mapError .fault) := by
  cases s with
  | tick n => exact m.guardedTick_eq n
  | event e =>
    cases e with
    | cpuTick => exact m.guardedTick_eq _
    | timerTick t epoch => exact m.guardedTimerTick_eq t epoch
    | programLoaded program => exact m.guardedLoad_eq program
    | _ => rfl

theorem guardedRespond_ne_trap (s : Stimulus) : (m.guardedRespond s).2 ≠ .error .trap := by
  rw [guardedRespond_eq]
  cases (m.respond s).2 <;> exact nofun

/-- A reachable machine is within its bounds, and no stimulus makes it trap. -/
theorem never_traps {m : Machine} (h : m.Reachable) :
    m.InBounds ∧ ∀ s, (m.guardedRespond s).2 ≠ .error .trap ∧
      m.guardedRespond s = ((m.respond s).1, (m.respond s).2.mapError .fault) :=
  ⟨h.inBounds, fun s => ⟨m.guardedRespond_ne_trap s, m.guardedRespond_eq s⟩⟩

/-- A program that calls itself has taken up the whole stack after sixteen instructions. The next
call is refused, as no slot is left for it. -/
theorem never_traps_full :
    let m := (((new {} 0).respond (.event (.programLoaded [0x22, 0x00]))).1.respond (.tick 16)).1
    m.Reachable ∧ m.state.registers.stored.sp = 16 ∧ m.InBounds ∧
      ∃ fault, (m.guardedRespond (.tick 1)).2 = .error (.fault fault) := by
  intro m
  have hm : m.Reachable := .respond _ (.respond _ (.new {} 0))
  have hfacts : m.state.registers.stored.sp = 16 ∧ (m.respond (.tick 1)).2.isOk = false := by
    decide +kernel
  obtain ⟨hsp, hok⟩ := hfacts
  obtain ⟨hb, hs⟩ := never_traps hm
  refine ⟨hm, hsp, hb, ?_⟩
  rw [(hs (.tick 1)).2]
  cases hr : (m.respond (.tick 1)).2 with
  | error fault => exact ⟨fault, rfl⟩
  | ok es =>
    rw [hr] at hok
    cases hok

end Machine
end Chip8
