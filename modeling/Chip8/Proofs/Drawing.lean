import Chip8.Proofs.Collisions
import Chip8.Proofs.Effects
import Chip8.Proofs.Families
import Chip8.Proofs.Loading

/-! # Drawing from memory

A drawing instruction takes its sprite from memory at the index and its place from two registers. It
toggles the pixels that the sprite covers, and the flag register tells whether one of them was
lit. -/
namespace Chip8

namespace Memory

theorem getD_readRange (m : Memory) (w : UInt16) {n i : Nat} (h : i < n) :
    (m.readRange w n).getD i 0 = m.get (.ofNat (w.toNat + i)) := by
  rw [List.getD_eq_getElem?_getD, getElem?_readRange, if_pos h, Option.getD_some]

end Memory

namespace State

variable (s : State) (x y : Register) (rows : Nibble)

/-- The sprite of an instruction that draws, and the place where it is drawn. -/
def sprite : Sprite :=
  ⟨(s.get x).toNat, (s.get y).toNat, s.memory.readRange s.registers.i rows.val⟩

/-- Some set bit of the rows in memory lies on the pixel. -/
def Covers (p : Pixel) : Prop :=
  ∃ i < rows.val, ∃ k < 8,
    spriteBit (s.memory.get (.ofNat (s.registers.i.toNat + i))) k = true ∧
      ((s.get x).toNat + k) % 64 = p.column ∧ ((s.get y).toNat + i) % 32 = p.row

theorem covers_iff (p : Pixel) :
    s.Covers x y rows p ↔ 0 < (s.sprite x y rows).hits p.column p.row := by
  have hl : (s.sprite x y rows).rows.length = rows.val := Memory.length_readRange ..
  rw [Sprite.hits, Finset.card_pos]
  constructor
  · rintro ⟨i, hi, k, hk, hbit, hc, hr⟩
    refine ⟨(i, k), Sprite.mem_bitsOn.mpr ⟨⟨hl ▸ hi, hk⟩, ?_, hc, hr⟩⟩
    rwa [sprite, Memory.getD_readRange _ _ hi]
  · rintro ⟨⟨i, k⟩, hm⟩
    obtain ⟨⟨hi, hk⟩, hbit, hc, hr⟩ := Sprite.mem_bitsOn.mp hm
    rw [hl] at hi
    rw [sprite, Memory.getD_readRange _ _ hi] at hbit
    exact ⟨i, hi, k, hk, hbit, hc, hr⟩

/-- The state `s'` is what drawing makes of `s`. -/
structure Drawn (s' : State) : Prop where
  toggled : ∀ p, s'.screen.get p ≠ s.screen.get p ↔ s.Covers x y rows p
  flag_eq_one : s'.get Registers.flag = 1 ↔ ∃ p, s.Covers x y rows p ∧ s.screen.get p = true
  flag_eq_zero : s'.get Registers.flag = 0 ↔ ¬ ∃ p, s.Covers x y rows p ∧ s.screen.get p = true
  drawFlag : s'.drawFlag = true
  memory : s'.memory = s.memory
  index : s'.registers.i = s.registers.i

theorem drawn_draw : s.Drawn x y rows (s.draw x y rows) := by
  have hle : (s.sprite x y rows).rows.length ≤ 32 := by
    have hl : (s.sprite x y rows).rows.length = rows.val := Memory.length_readRange ..
    have := rows.isLt
    omega
  have hflag : (s.draw x y rows).get Registers.flag =
      if s.screen.collides (s.sprite x y rows) then 1 else 0 :=
    (Registers.get_set ..).trans (if_pos rfl)
  have hcollides : s.screen.collides (s.sprite x y rows) = true ↔
      ∃ p, s.Covers x y rows p ∧ s.screen.get p = true := by
    simp only [Screen.collides_iff_of_le hle, covers_iff]
  refine ⟨fun p => ?_, ?_, ?_, rfl, rfl, rfl⟩
  · have hget := Screen.get_draw_of_le hle s.screen p
    change (s.draw x y rows).screen.get p = _ at hget
    rw [hget, covers_iff]
    cases s.screen.get p <;> simp
  · rw [hflag, ← hcollides]
    simp
  · rw [hflag, ← hcollides]
    simp

variable {s x y rows}

/-- Without rows nothing is covered. -/
theorem Drawn.of_zero {s' : State} (h : s.Drawn x y 0 s') :
    s'.screen = s.screen ∧ s'.get Registers.flag = 0 := by
  have hn (p : Pixel) : ¬ s.Covers x y 0 p := by
    rintro ⟨i, hi, _⟩
    exact Nat.not_lt_zero i hi
  refine ⟨Screen.ext_get fun p => ?_, h.flag_eq_zero.mpr ?_⟩
  · exact Classical.not_not.mp (mt (h.toggled p).mp (hn p))
  · rintro ⟨p, hp, _⟩
    exact hn p hp

end State

namespace Machine

variable {m : Machine} {x y : Register} {rows : Nibble} {s' : State}

/-- Neither the fetch nor the draw flag has a part in what is drawn. -/
theorem drawn_of_advanced {drawFlag : Bool}
    (h : (m.withDrawFlag drawFlag).advanced.state.Drawn x y rows s') : m.state.Drawn x y rows s' :=
  ⟨h.toggled, h.flag_eq_one, h.flag_eq_zero, h.drawFlag, h.memory, h.index⟩

/-- The machine after the drawing instruction that it has fetched. -/
def drawn (m : Machine) : Machine :=
  { m.advanced with state :=
      m.advanced.state.draw (Opcode.x m.fetched) (Opcode.y m.fetched) (Opcode.n m.fetched) }

theorem step_of_family_draw (h : (Opcode.family m.fetched).val = 0xD) : m.step = .ok m.drawn := by
  have hd : Instruction.decode? m.fetched =
      some (.draw (Opcode.x m.fetched) (Opcode.y m.fetched) (Opcode.n m.fetched)) :=
    Opcode.decode?_of_meaning (Opcode.meaning_of_family_draw h) (by simp)
  rw [step_of_decode? hd]
  rfl

theorem tick_of_family_draw (h : (Opcode.family m.fetched).val = 0xD) (hr : m.mode = .running) :
    m.tick 1 = ((m.withDrawFlag false).drawn,
      .ok [.render (m.withDrawFlag false).drawn.state.screen]) := by
  have hd := step_of_family_draw (m := m.withDrawFlag false) h
  have hs : (m.withDrawFlag false).drawn.startedTimers m.state.timers = [] := by
    refine List.filter_eq_nil_iff.mpr fun t _ => ?_
    change ¬ (!(m.state.timers.get t).running && (m.state.timers.get t).running) = true
    simp
  rw [tick_one_of_running hr, hd]
  change (_, Except.ok (effectsSince _ _)) = _
  rw [effectsSince, hs]
  rfl

/-- Drawing toggles the pixels that the rows in memory cover, and sets the flag register to one or
zero. A word of the drawing family does this and asks for the new screen to be shown, without rows
as well. -/
theorem draw_from_memory :
    (∀ (s : State) (g : Generator) (x y rows : Nibble), ∃ s',
      s.execute g (.draw x y rows) = .ok (s', g) ∧ s.Drawn x y rows s' ∧
        (rows = 0 → s'.screen = s.screen ∧ s'.get Registers.flag = 0)) ∧
      ∀ m : Machine, (Opcode.family m.fetched).val = 0xD →
        (∃ m', m.step = .ok m' ∧
          m.state.Drawn (Opcode.x m.fetched) (Opcode.y m.fetched) (Opcode.n m.fetched) m'.state) ∧
        (m.mode = .running → ∃ m', m.tick 1 = (m', .ok [.render m'.state.screen]) ∧
          m.state.Drawn (Opcode.x m.fetched) (Opcode.y m.fetched) (Opcode.n m.fetched)
            m'.state) := by
  refine ⟨fun s g x y rows => ⟨s.draw x y rows, rfl, s.drawn_draw x y rows, ?_⟩,
    fun m h => ⟨⟨m.drawn, step_of_family_draw h, ?_⟩, fun hr => ⟨_, tick_of_family_draw h hr, ?_⟩⟩⟩
  · rintro rfl
    exact (s.drawn_draw x y 0).of_zero
  · exact drawn_of_advanced (State.drawn_draw (m.withDrawFlag m.state.drawFlag).advanced.state ..)
  · exact drawn_of_advanced (State.drawn_draw (m.withDrawFlag false).advanced.state ..)

/-- The word `DFF2` takes both coordinates from the flag register, which is one and becomes zero.
The index is at the end of memory, so the second row is the first one of the digit zero. -/
theorem draw_from_memory_wrapped :
    let b := (new {} 0).booted [0xDF, 0xF2]
    let m := { b with state := (b.state.setIndex 0xFFFF).setRegister Registers.flag 1 }
    m.mode = .running ∧ m.fetched = 0xDFF2 ∧ m.state.get Registers.flag = 1 ∧
      ∃ m', m.tick 1 = (m', .ok [.render m'.state.screen]) ∧
        m'.state.screen.get (.wrap 1 2) ≠ m.state.screen.get (.wrap 1 2) ∧
        m'.state.get Registers.flag = 0 := by
  intro b m
  have hfacts : m.mode = .running ∧ m.fetched = 0xDFF2 ∧ m.state.get Registers.flag = 1 := by
    decide +kernel
  obtain ⟨hr, hw, hflag⟩ := hfacts
  have hblank : m.state.screen = .blank := rfl
  obtain ⟨m', ht, hd⟩ := (draw_from_memory.2 m (by rw [hw]; decide)).2 hr
  rw [hw] at hd
  refine ⟨hr, hw, hflag, m', ht, (hd.toggled _).mpr ⟨1, by decide, 0, by decide, ?_⟩,
    hd.flag_eq_zero.mpr ?_⟩
  · decide +kernel
  · rintro ⟨p, _, hp⟩
    rw [hblank, Screen.get_blank] at hp
    cases hp

end Machine
end Chip8
