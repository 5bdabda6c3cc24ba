import Chip8.Proofs.Families
import Chip8.Proofs.Loading

/-! # Arithmetic words

The words `7xkk` and `8xyn` compute with numbers from 0 to 255. The flag, if there is one, is the
carry, the absence of a borrow or the bit shifted out. It is written last, whichever registers the
word names. -/
namespace Chip8

/-- What the words `8xyn` compute from the numbers `a` and `b`, by their last nibble: the result
and, if there is one, the flag. -/
def Operation.numbers? (a b : Nat) : Nat → Option (Nat × Option Nat)
  | 0x0 => some (b, none)
  | 0x1 => some (a ||| b, none)
  | 0x2 => some (a &&& b, none)
  | 0x3 => some (a ^^^ b, none)
  | 0x4 => some ((a + b) % 256, some ((a + b) / 256))
  | 0x5 => some ((((a : Int) - b) % 256).toNat, some (if a ≥ b then 1 else 0))
  | 0x6 => some (a / 2, some (a % 2))
  | 0x7 => some ((((b : Int) - a) % 256).toNat, some (if b ≥ a then 1 else 0))
  | 0xE => some (2 * a % 256, some (a / 128))
  | _ => none

/-- What a word computes from the numbers `a` and `b` in its registers. -/
def Opcode.numbers? (w : Opcode) (a b : Nat) : Option (Nat × Option Nat) :=
  match (family w).val with
  | 0x7 => some ((a + (byte w).toNat) % 256, none)
  | 0x8 => Operation.numbers? a b (n w).val
  | _ => none

/-- The registers `r'` are `r` after `result` has been written to register `x` and then the flag, if
there is one, to the flag register. -/
structure Registers.Written (r r' : Registers) (x : Register) (result : Nat)
    (flag? : Option Nat) : Prop where
  flag : ∀ f ∈ flag?, (r'.get Registers.flag).toNat = f
  target : flag? = none ∨ x ≠ Registers.flag → (r'.get x).toNat = result
  others : ∀ z, z ≠ x → flag? = none ∨ z ≠ Registers.flag → r'.get z = r.get z
  rest : r' = { r with v := r'.v }

namespace Operation

/-- The bytes that an operation makes of two bytes, as numbers. -/
def outcome (a b : UInt8) (op : Operation) : Nat × Option Nat :=
  ((op.result a b).toNat, (op.flag? a b).map UInt8.toNat)

variable (a b : UInt8)

theorem toNat_bit (p : Prop) [Decidable p] :
    (if p then 1 else 0 : UInt8).toNat = if p then 1 else 0 := by
  split <;> rfl

theorem outcome_add :
    add.outcome a b = ((a.toNat + b.toNat) % 256, some ((a.toNat + b.toNat) / 256)) := by
  have ha := a.toNat_lt
  have hb := b.toNat_lt
  have hf : (if 256 ≤ a.toNat + b.toNat then 1 else 0) = (a.toNat + b.toNat) / 256 := by
    split <;> omega
  rw [outcome, result, flag?, UInt8.toNat_add, Option.map_some, toNat_bit, hf]

theorem outcome_subtract :
    subtract.outcome a b =
      ((((a.toNat : Int) - b.toNat) % 256).toNat, some (if a.toNat ≥ b.toNat then 1 else 0)) := by
  have ha := a.toNat_lt
  have hb := b.toNat_lt
  have hr : (a - b).toNat = (((a.toNat : Int) - b.toNat) % 256).toNat := by
    rw [UInt8.toNat_sub]
    omega
  rw [outcome, result, flag?, hr, Option.map_some, toNat_bit]
  rfl

theorem outcome_subtractFrom :
    subtractFrom.outcome a b =
      ((((b.toNat : Int) - a.toNat) % 256).toNat, some (if b.toNat ≥ a.toNat then 1 else 0)) :=
  outcome_subtract b a

theorem outcome_shiftLeft :
    shiftLeft.outcome a b = (2 * a.toNat % 256, some (a.toNat / 128)) := by
  have hr : (a * 2).toNat = 2 * a.toNat % 256 := by
    rw [UInt8.toNat_mul, Nat.mul_comm]
    rfl
  rw [outcome, result, hr]
  rfl

/-- The table of numbers and the operations on bytes tell the same. -/
theorem numbers?_eq (n : Nat) :
    numbers? a.toNat b.toNat n = (ofNibble? n).map (outcome a b) := by
  unfold numbers? ofNibble?
  split
  case h_2 => exact congrArg (fun r => some (r, none)) (UInt8.toNat_or a b).symm
  case h_3 => exact congrArg (fun r => some (r, none)) (UInt8.toNat_and a b).symm
  case h_4 => exact congrArg (fun r => some (r, none)) (UInt8.toNat_xor a b).symm
  case h_5 => exact congrArg some (outcome_add a b).symm
  case h_6 => exact congrArg some (outcome_subtract a b).symm
  case h_8 => exact congrArg some (outcome_subtractFrom a b).symm
  case h_9 => exact congrArg some (outcome_shiftLeft a b).symm
  case h_10 => simp_all
  all_goals rfl

end Operation

namespace Registers

variable (r : Registers) (x : Register)

theorem written_set (b : UInt8) : r.Written (r.set x b) x b.toNat none where
  flag := nofun
  target := fun _ => by rw [get_set, if_pos rfl]
  others := fun z hz _ => by rw [get_set, if_neg hz]
  rest := rfl

/-- What has been computed for the first register is written before the flag. -/
theorem written_operate (op : Operation) (y : Register) :
    r.Written (r.operate op x y) x (op.outcome (r.get x) (r.get y)).1
      (op.outcome (r.get x) (r.get y)).2 := by
  cases hf : op.flag? (r.get x) (r.get y) with
  | none =>
    simp only [operate, Operation.outcome, hf, Option.map_none]
    exact r.written_set x _
  | some f =>
    simp only [operate, Operation.outcome, hf, Option.map_some]
    refine ⟨?_, fun hx => ?_, fun z hz hz' => ?_, rfl⟩
    · rintro _ ⟨⟩
      rw [get_set, if_pos rfl]
    · have hne : x ≠ flag := hx.resolve_left nofun
      rw [get_set, if_neg hne, get_set, if_pos rfl]
    · have hne : z ≠ flag := hz'.resolve_left nofun
      rw [get_set, if_neg hne, get_set, if_neg hz]

end Registers

/-- An arithmetic word writes what it computes from the registers as they were before. -/
theorem State.written_of_numbers? (s : State) (g : Generator) {w : Opcode} {result : Nat}
    {flag? : Option Nat}
    (h : w.numbers? (s.get (Opcode.x w)).toNat (s.get (Opcode.y w)).toNat = some (result, flag?)) :
    ∃ i r, Instruction.decode? w = some i ∧ s.execute g i = .ok ({ s with registers := r }, g) ∧
      s.registers.Written r (Opcode.x w) result flag? := by
  unfold Opcode.numbers? at h
  split at h
  next hw =>
    have hd : Instruction.decode? w = some (.addByte (Opcode.x w) (Opcode.byte w)) := by
      simp only [Instruction.decode?, hw]
    cases h
    rw [← UInt8.toNat_add]
    exact ⟨_, _, hd, rfl, s.registers.written_set _ _⟩
  next hw =>
    rw [Operation.numbers?_eq, Option.map_eq_some_iff] at h
    obtain ⟨op, hop, ho⟩ := h
    have hd : Instruction.decode? w = some (.operate op (Opcode.x w) (Opcode.y w)) := by
      simp only [Instruction.decode?, hw, hop, Option.map_some]
    have hr := s.registers.written_operate (Opcode.x w) op (Opcode.y w)
    unfold State.get at ho
    rw [ho] at hr
    exact ⟨_, _, hd, rfl, hr⟩
  next => cases h

namespace Machine

variable {m : Machine} {result : Nat} {flag? : Option Nat}

/-- A machine that executes a word `7xkk` or `8xyn` with a last nibble from 0 to 7 or E changes
nothing but register `x`, the flag register if the word has a flag, and the program counter. If `x`
is the flag register, the flag is what remains in it. If `y` is, its old content is the operand. -/
theorem arithmetic_exact
    (h : m.fetched.numbers? (m.state.get (Opcode.x m.fetched)).toNat
      (m.state.get (Opcode.y m.fetched)).toNat = some (result, flag?)) :
    ∃ r, m.state.registers.Written r (Opcode.x m.fetched) result flag? ∧
      m.step = .ok { m with state := { m.state with
        registers := { r with pc := m.advanced.pc } } } := by
  obtain ⟨i, r, hd, he, hr⟩ := m.advanced.state.written_of_numbers? m.random h
  have hrest : r = { m.state.registers with v := r.v, pc := m.advanced.pc } := hr.rest
  refine ⟨{ m.state.registers with v := r.v }, ⟨hr.flag, hr.target, hr.others, rfl⟩, ?_⟩
  rw [step_of_decode? hd, ← hrest]
  exact congrArg (Except.map _) he

/-- The word `8FF4` adds the flag register to itself. Of the sum 400 the carry remains. -/
theorem arithmetic_exact_aliased :
    let b := (new {} 0).booted [0x8F, 0xF4]
    let m := { b with state := b.state.setRegister Registers.flag 200 }
    m.fetched.numbers? (m.state.get (Opcode.x m.fetched)).toNat
        (m.state.get (Opcode.y m.fetched)).toNat = some (144, some 1) ∧
      ∃ m', m.step = .ok m' ∧ m'.state.get Registers.flag = 1 := by
  intro b m
  have hn : m.fetched.numbers? (m.state.get (Opcode.x m.fetched)).toNat
      (m.state.get (Opcode.y m.fetched)).toNat = some (144, some 1) := by
    decide +kernel
  obtain ⟨r, hr, hs⟩ := arithmetic_exact hn
  exact ⟨hn, _, hs, UInt8.toNat_inj.mp (hr.flag 1 rfl)⟩

end Machine
end Chip8
