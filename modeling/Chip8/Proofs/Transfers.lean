import Chip8.Proofs.Targets

/-! # Transfers

Registers are stored to memory and loaded from it, and a byte is stored as its decimal digits. The
bytes lie from the index on and go round the end of memory. There are at most sixteen, so no two of
them share an address. -/
namespace Chip8

namespace Memory

theorem get_store_ofNat (m : Memory) (w : UInt16) {bs : List UInt8} (h : bs.length ≤ 4096) {k : Nat}
    (hk : k < bs.length) : (m.store w bs).get (.ofNat (w.toNat + k)) = bs[k] := by
  rw [← Address.ofWord_add]
  exact m.read_store w h hk

end Memory

namespace Registers

variable (r : Registers)

theorem getElem_upTo {x : Register} {k : Nat} (h : k < (r.upTo x).length) (hk : k < 16) :
    (r.upTo x)[k] = r.get ⟨k, hk⟩ := by
  simp [upTo, get]

theorem get_setFrom (x : Nat) (bs : List UInt8) (y : Register) :
    (r.setFrom x bs).get y = if x ≤ y.val then (bs[y.val - x]?).getD (r.get y) else r.get y := by
  induction bs generalizing r x with
  | nil => simp [setFrom]
  | cons b bs ih =>
    unfold setFrom
    split
    next hx =>
      rw [ih, get_set]
      rcases Nat.lt_trichotomy y.val x with hlt | rfl | hgt
      · have hne : y ≠ ⟨x, hx⟩ := fun he => Nat.ne_of_lt hlt (congrArg Fin.val he)
        rw [if_neg (by omega), if_neg hne, if_neg (by omega)]
      · rw [if_neg (by omega), if_pos rfl, if_pos (Nat.le_refl _), Nat.sub_self]
        rfl
      · have hne : y ≠ ⟨x, hx⟩ := fun he => Nat.ne_of_gt hgt (congrArg Fin.val he)
        have hsub : y.val - x = y.val - (x + 1) + 1 := by omega
        rw [if_pos (Nat.succ_le_of_lt hgt), if_neg hne, if_pos (Nat.le_of_lt hgt), hsub,
          List.getElem?_cons_succ]
    next hx =>
      have hy := y.isLt
      rw [if_neg (by omega)]

end Registers

/-- The word `Fxkk`. -/
def Opcode.ofTransfer (x : Register) (kk : UInt8) : Opcode :=
  UInt16.ofNat (0xF000 + 256 * x.val + kk.toNat)

theorem Instruction.decode?_ofTransfer (x : Register) (kk : UInt8) :
    decode? (.ofTransfer x kk) = transfer? x kk.toNat := by
  have hx := x.isLt
  have hk := kk.toNat_lt
  have hw : (Opcode.ofTransfer x kk).toNat = 0xF000 + 256 * x.val + kk.toNat := by
    rw [Opcode.ofTransfer, UInt16.toNat_ofNat']
    omega
  have hf : (Opcode.family (.ofTransfer x kk)).val = 0xF := by
    simp only [Opcode.family, Nibble.ofNat, hw]
    omega
  have hx' : Opcode.x (.ofTransfer x kk) = x := by
    apply Fin.ext
    simp only [Opcode.x, Nibble.ofNat, hw]
    omega
  have hb : (Opcode.byte (.ofTransfer x kk)).toNat = kk.toNat := by
    simp only [Opcode.byte, UInt16.toNat_toUInt8, hw]
    omega
  simp only [decode?, hf, hx', hb]

namespace State

/-- The word executes on the state `s` without a fault and without a random word. -/
def Executes (s : State) (w : Opcode) (s' : State) : Prop :=
  ∃ i, Instruction.decode? w = some i ∧ ∀ g, s.execute g i = .ok (s', g)

/-- The state `s'` has the registers of `s` and its memory but for the `n` bytes from the index
on. -/
structure Overwritten (s s' : State) (n : Nat) : Prop where
  others : ∀ a : Address, (∀ k < n, a ≠ .ofNat (s.registers.i.toNat + k)) →
    s'.memory.get a = s.memory.get a
  registers : s'.registers = s.registers

/-- The state `s'` has the memory and the index of `s`, and its registers but for those up to `x`,
which have the bytes from the index on. -/
structure Loaded (s s' : State) (x : Register) : Prop where
  get_of_le : ∀ r ≤ x, s'.get r = s.memory.get (.ofNat (s.registers.i.toNat + r.val))
  get_of_lt : ∀ r, x < r → s'.get r = s.get r
  index : s'.registers.i = s.registers.i
  memory : s'.memory = s.memory

variable (s : State) (x : Register)

/-- The state after the word `Fx55`. -/
def storeRegisters : State := { s with memory := s.memory.store s.registers.i (s.registers.upTo x) }

/-- The state after the word `Fx33`. -/
def storeDecimal : State :=
  { s with memory := s.memory.store s.registers.i (decimalDigits (s.get x)) }

/-- The state after the word `Fx65`. -/
def loadRegisters : State :=
  { s with
    registers := s.registers.setFrom 0 (s.memory.readRange s.registers.i (x.val + 1)) }

theorem executes_storeRegisters : s.Executes (.ofTransfer x 0x55) (s.storeRegisters x) :=
  ⟨_, Instruction.decode?_ofTransfer x 0x55, fun _ => rfl⟩

theorem executes_storeDecimal : s.Executes (.ofTransfer x 0x33) (s.storeDecimal x) :=
  ⟨_, Instruction.decode?_ofTransfer x 0x33, fun _ => rfl⟩

theorem executes_loadRegisters : s.Executes (.ofTransfer x 0x65) (s.loadRegisters x) :=
  ⟨_, Instruction.decode?_ofTransfer x 0x65, fun _ => rfl⟩

theorem overwritten_store {bs : List UInt8} (h : bs.length ≤ 4096) :
    s.Overwritten { s with memory := s.memory.store s.registers.i bs } bs.length := by
  refine ⟨fun a ha => Part.same_store (p := .byte a) h ?_, rfl⟩
  simpa [indexed, eq_comm] using ha

theorem length_upTo_le : (s.registers.upTo x).length ≤ 4096 := by
  have hx := x.isLt
  rw [Registers.length_upTo]
  omega

theorem overwritten_storeRegisters : s.Overwritten (s.storeRegisters x) (x.val + 1) := by
  rw [← s.registers.length_upTo x]
  exact s.overwritten_store (s.length_upTo_le x)

theorem overwritten_storeDecimal : s.Overwritten (s.storeDecimal x) 3 :=
  s.overwritten_store (by simp [decimalDigits])

theorem get_storeRegisters {r : Register} (h : r ≤ x) :
    (s.storeRegisters x).memory.get (.ofNat (s.registers.i.toNat + r.val)) = s.get r := by
  have hr : r.val < (s.registers.upTo x).length := by
    rw [Registers.length_upTo]
    exact Nat.lt_succ_of_le h
  refine (s.memory.get_store_ofNat _ (s.length_upTo_le x) hr).trans ?_
  exact s.registers.getElem_upTo hr r.isLt

theorem get_storeDecimal {k : Nat} (h : k < (decimalDigits (s.get x)).length) :
    (s.storeDecimal x).memory.get (.ofNat (s.registers.i.toNat + k)) =
      (decimalDigits (s.get x))[k] :=
  s.memory.get_store_ofNat _ (by simp [decimalDigits]) h

theorem loaded_loadRegisters : s.Loaded (s.loadRegisters x) x where
  get_of_le := by
    intro r hr
    have hlt : r.val < x.val + 1 := Nat.lt_succ_of_le hr
    refine (Registers.get_setFrom ..).trans ?_
    rw [if_pos (Nat.zero_le _), Nat.sub_zero, Memory.getElem?_readRange, if_pos hlt,
      Option.getD_some]
  get_of_lt := by
    intro r hr
    refine Part.same_setFrom (p := .register r) fun y _ hy => ?_
    rw [Memory.length_readRange] at hy
    rintro ⟨⟩
    exact absurd (Fin.lt_def.mp hr) (by omega)
  index := Part.same_setFrom (p := .index) fun _ _ _ => nofun
  memory := rfl

/-- Storing the registers right after they have been loaded leaves the memory as it is. -/
theorem memory_storeRegisters_loadRegisters :
    ((s.loadRegisters x).storeRegisters x).memory = s.memory := by
  have hl := s.loaded_loadRegisters x
  refine Memory.ext_get fun a => ?_
  by_cases ha : ∃ r ≤ x, a = .ofNat (s.registers.i.toNat + r.val)
  · obtain ⟨r, hr, rfl⟩ := ha
    have hs := (s.loadRegisters x).get_storeRegisters x hr
    rwa [hl.index, hl.get_of_le r hr] at hs
  · refine ((s.loadRegisters x).overwritten_storeRegisters x).others a fun k hk he => ha ?_
    rw [hl.index] at he
    exact ⟨⟨k, by omega⟩, Fin.le_def.mpr (Nat.le_of_lt_succ hk), he⟩

variable {s x}

/-- Loading takes the registers from wherever they have been stored. -/
theorem get_loadRegisters_storeRegisters {t : State} (hm : t.memory = (s.storeRegisters x).memory)
    (hi : t.registers.i.toNat % 4096 = s.registers.i.toNat % 4096) {r : Register} (hr : r ≤ x) :
    (t.loadRegisters x).get r = s.get r := by
  have ha : Address.ofNat (t.registers.i.toNat + r.val) = .ofNat (s.registers.i.toNat + r.val) := by
    apply Fin.ext
    rw [Address.val_ofNat, Address.val_ofNat]
    omega
  rw [(t.loaded_loadRegisters x).get_of_le r hr, hm, ha, s.get_storeRegisters x hr]

/-- The digits of a byte are loaded from where they have been stored. -/
theorem get_loadRegisters_storeDecimal {k : Nat} (h : k < (decimalDigits (s.get x)).length)
    (hk : k < 16) :
    ((s.storeDecimal x).loadRegisters 2).get ⟨k, hk⟩ = (decimalDigits (s.get x))[k] := by
  have hl := (s.storeDecimal x).loaded_loadRegisters 2
  exact (hl.get_of_le ⟨k, hk⟩ (Nat.le_of_lt_succ h)).trans (s.get_storeDecimal x h)

/-- The first three registers hold the digits of the byte `b`. -/
structure HoldsDigits (s : State) (b : UInt8) : Prop where
  hundreds : (s.get 0).toNat ≤ 9
  tens : (s.get 1).toNat ≤ 9
  units : (s.get 2).toNat ≤ 9
  sum : 100 * (s.get 0).toNat + 10 * (s.get 1).toNat + (s.get 2).toNat = b.toNat

theorem holdsDigits_storeDecimal :
    ((s.storeDecimal x).loadRegisters 2).HoldsDigits (s.get x) := by
  have h₀ : ((s.storeDecimal x).loadRegisters 2).get 0 = s.get x / 100 :=
    get_loadRegisters_storeDecimal (k := 0) (by simp [decimalDigits]) _
  have h₁ : ((s.storeDecimal x).loadRegisters 2).get 1 = s.get x / 10 % 10 :=
    get_loadRegisters_storeDecimal (k := 1) (by simp [decimalDigits]) _
  have h₂ : ((s.storeDecimal x).loadRegisters 2).get 2 = s.get x % 10 :=
    get_loadRegisters_storeDecimal (k := 2) (by simp [decimalDigits]) _
  have hb := (s.get x).toNat_lt
  have h₁₀ : (10 : UInt8).toNat = 10 := rfl
  have h₁₀₀ : (100 : UInt8).toNat = 100 := rfl
  constructor <;>
    simp only [h₀, h₁, h₂, UInt8.toNat_div, UInt8.toNat_mod, h₁₀, h₁₀₀] <;> omega

variable (s x)

/-- Storing registers and loading them, in any state with an index at the same address, restores
them. Loading and storing leaves the memory as it is. The digits stored for a byte are loaded as
such and make up the byte. The index is never changed, and of the memory nothing but the bytes
stored. -/
theorem transfers_round_trip :
    (∃ s₁, s.Executes (.ofTransfer x 0x55) s₁ ∧ s.Overwritten s₁ (x.val + 1) ∧
        (∀ r ≤ x, s₁.memory.get (.ofNat (s.registers.i.toNat + r.val)) = s.get r) ∧
        ∀ t : State, t.memory = s₁.memory →
          t.registers.i.toNat % 4096 = s.registers.i.toNat % 4096 →
          ∃ t₁, t.Executes (.ofTransfer x 0x65) t₁ ∧ (∀ r ≤ x, t₁.get r = s.get r) ∧
            (∀ r, x < r → t₁.get r = t.get r) ∧ t₁.registers.i = t.registers.i) ∧
      (∃ s₁ s₂, s.Executes (.ofTransfer x 0x65) s₁ ∧ s₁.Executes (.ofTransfer x 0x55) s₂ ∧
        s₂.memory = s.memory ∧ s₁.registers.i = s.registers.i ∧ s₂.registers.i = s.registers.i) ∧
      ∃ s₁ s₂, s.Executes (.ofTransfer x 0x33) s₁ ∧ s₁.Executes (.ofTransfer 2 0x65) s₂ ∧
        s.Overwritten s₁ 3 ∧ s₂.memory = s₁.memory ∧ s₂.registers.i = s.registers.i ∧
        s₂.HoldsDigits (s.get x) := by
  have hl := s.loaded_loadRegisters x
  have hd := (s.storeDecimal x).loaded_loadRegisters 2
  refine ⟨⟨_, s.executes_storeRegisters x, s.overwritten_storeRegisters x, fun r hr => ?_,
    fun t hm hi => ⟨_, t.executes_loadRegisters x, fun r hr => ?_, ?_, ?_⟩⟩, ?_, ?_⟩
  · exact s.get_storeRegisters x hr
  · exact get_loadRegisters_storeRegisters hm hi hr
  · exact (t.loaded_loadRegisters x).get_of_lt
  · exact (t.loaded_loadRegisters x).index
  · exact ⟨_, _, s.executes_loadRegisters x, executes_storeRegisters _ x,
      s.memory_storeRegisters_loadRegisters x, hl.index, hl.index⟩
  · exact ⟨_, _, s.executes_storeDecimal x, executes_loadRegisters _ 2,
      s.overwritten_storeDecimal x, hd.memory, hd.index, holdsDigits_storeDecimal⟩

/-- The registers `V0` and `V1` are stored across the end of memory, with an index beyond it, and
loaded with the index at the last address. -/
theorem transfers_round_trip_wrapped :
    let s := ((State.initial.setIndex 0xFFFF).setRegister 0 7).setRegister 1 8
    ∃ s₁, s.Executes 0xF155 s₁ ∧ s₁.memory.get 0xFFF = 7 ∧ s₁.memory.get 0 = 8 ∧
      ∃ t₁, ({ State.initial with memory := s₁.memory }.setIndex 0xFFF).Executes 0xF165 t₁ ∧
        t₁.get 0 = 7 ∧ t₁.get 1 = 8 := by
  intro s
  have hi : (0xFFF : UInt16).toNat % 4096 = (0xFFFF : UInt16).toNat % 4096 := by decide
  have hfacts : Address.ofNat (s.registers.i.toNat + (0 : Register).val) = 0xFFF ∧
      Address.ofNat (s.registers.i.toNat + (1 : Register).val) = 0 ∧ s.get 0 = 7 ∧ s.get 1 = 8 := by
    decide +kernel
  obtain ⟨ha₀, ha₁, hg₀, hg₁⟩ := hfacts
  obtain ⟨⟨s₁, he, _, hb, ht⟩, _⟩ := s.transfers_round_trip 1
  obtain ⟨t₁, het, hg, _⟩ := ht ({ State.initial with memory := s₁.memory }.setIndex 0xFFF) rfl hi
  have hb₀ := hb 0 (by decide)
  have hb₁ := hb 1 (by decide)
  rw [ha₀, hg₀] at hb₀
  rw [ha₁, hg₁] at hb₁
  exact ⟨s₁, he, hb₀, hb₁, t₁, het, (hg 0 (by decide)).trans hg₀, (hg 1 (by decide)).trans hg₁⟩

end State
end Chip8
