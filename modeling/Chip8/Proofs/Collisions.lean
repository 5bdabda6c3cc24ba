import Chip8.Proofs.Painting
import Mathlib.Data.List.GetD

/-! # Collisions

A sprite collides with what is on the screen, or with itself if it is taller than the screen. Up to
32 rows no pixel is hit twice, and a collision is the same as a pixel that goes out. -/
namespace Chip8

namespace Sprite

/-- Some bit of the sprite is set. -/
def Marked (s : Sprite) : Prop := ∃ b ∈ s.rows, ∃ k < 8, spriteBit b k = true

theorem mem_bitsOn {s : Sprite} {column row i k : Nat} :
    (i, k) ∈ s.bitsOn column row ↔ (i < s.rows.length ∧ k < 8) ∧
      spriteBit (s.rows.getD i 0) k = true ∧ (s.x + k) % 64 = column ∧ (s.y + i) % 32 = row := by
  simp [bitsOn]

/-- Eight columns and 32 rows fit on the screen without coming round to the first ones. -/
theorem hits_le_one {s : Sprite} (h : s.rows.length ≤ 32) (column row : Nat) :
    s.hits column row ≤ 1 := by
  apply Finset.card_le_one.mpr
  rintro ⟨i, k⟩ hb ⟨j, l⟩ hb'
  obtain ⟨⟨hi, hk⟩, _, hc, hr⟩ := mem_bitsOn.mp hb
  obtain ⟨⟨hj, hl⟩, _, hc', hr'⟩ := mem_bitsOn.mp hb'
  have hij : i = j := by omega
  have hkl : k = l := by omega
  rw [hij, hkl]

theorem marked_iff (s : Sprite) : s.Marked ↔ ∃ p : Pixel, 0 < s.hits p.column p.row := by
  constructor
  · rintro ⟨b, hb, k, hk, hbit⟩
    obtain ⟨i, hi, rfl⟩ := List.getElem_of_mem hb
    refine ⟨.wrap (s.x + k) (s.y + i), Finset.card_pos.mpr ⟨(i, k), mem_bitsOn.mpr ?_⟩⟩
    refine ⟨⟨hi, hk⟩, ?_, rfl, rfl⟩
    rwa [List.getD_eq_getElem _ _ hi]
  · rintro ⟨p, hp⟩
    obtain ⟨⟨i, k⟩, hm⟩ := Finset.card_pos.mp hp
    obtain ⟨⟨hi, hk⟩, hbit, _⟩ := mem_bitsOn.mp hm
    rw [List.getD_eq_getElem _ _ hi] at hbit
    exact ⟨_, List.getElem_mem hi, k, hk, hbit⟩

end Sprite

namespace Screen

/-- Whether drawing the sprite erases a pixel that is lit when its turn comes. -/
def collides (s : Screen) (sprite : Sprite) : Bool :=
  (s.draw sprite.x sprite.y sprite.rows).2

/-- A pixel that is toggled twice is lit at one of the two times. -/
theorem toggle_collides_iff (s : Screen) (c : Bool) (ps : List Pixel) :
    (s.toggle c ps).2 = true ↔ c = true ∨ (∃ p ∈ ps, s.get p = true) ∨ ¬ ps.Nodup := by
  induction ps generalizing s c with
  | nil => simp [toggle]
  | cons p ps ih =>
    rw [toggle, ih, List.nodup_cons, Bool.or_eq_true, List.exists_mem_cons_iff]
    cases hp : s.get p with
    | true => simp
    | false =>
      -- `p` is lit from now on, so it collides if it comes again
      have hlit : (∃ q ∈ ps, (s.set p !false).get q = true) ↔
          p ∈ ps ∨ ∃ q ∈ ps, s.get q = true := by
        constructor
        · rintro ⟨q, hq, hg⟩
          by_cases hqp : q = p
          · exact .inl (hqp ▸ hq)
          · rw [get_set, if_neg hqp] at hg
            exact .inr ⟨q, hq, hg⟩
        · rintro (hm | ⟨q, hq, hg⟩)
          · exact ⟨p, hm, by simp [get_set]⟩
          · refine ⟨q, hq, ?_⟩
            rw [get_set, hg]
            simp
      rw [hlit]
      simp only [Bool.false_eq_true, or_false, false_or, Classical.not_and_iff_not_or_not,
        Classical.not_not]
      exact or_congr_right (or_assoc.trans or_left_comm)

theorem collides_iff (s : Screen) (sprite : Sprite) :
    s.collides sprite = true ↔
      (∃ p : Pixel, 0 < sprite.hits p.column p.row ∧ s.get p = true) ∨
        ∃ p : Pixel, 2 ≤ sprite.hits p.column p.row := by
  rw [collides, draw, toggle_collides_iff, List.nodup_iff_count_le_one]
  simp only [← List.count_pos_iff, Sprite.count_spriteHits, not_forall, not_le, Bool.false_eq_true,
    false_or]
  rfl

theorem collides_iff_of_le {sprite : Sprite} (h : sprite.rows.length ≤ 32) (s : Screen) :
    s.collides sprite = true ↔ ∃ p : Pixel, 0 < sprite.hits p.column p.row ∧ s.get p = true := by
  rw [collides_iff]
  refine or_iff_left ?_
  rintro ⟨p, hp⟩
  have := sprite.hits_le_one h p.column p.row
  omega

/-- Up to 32 rows, exactly the pixels that are hit change. -/
theorem get_draw_of_le {sprite : Sprite} (h : sprite.rows.length ≤ 32) (s : Screen) (p : Pixel) :
    (s.paint (.draw sprite)).get p = (s.get p != decide (0 < sprite.hits p.column p.row)) := by
  have hone := sprite.hits_le_one h p.column p.row
  have hodd : Odd (sprite.hits p.column p.row) ↔ 0 < sprite.hits p.column p.row := by
    rw [Nat.odd_iff]
    omega
  rw [get_draw, decide_eq_decide.mpr hodd]

/-- A sprite collides exactly if a pixel that it hits is lit, or if it hits a pixel twice. It hits
no pixel twice if it has at most 32 rows. It then collides exactly if a pixel goes out, and drawn
again it collides exactly if a pixel that it hits was dark at first, so one of the two times unless
all of its bits are clear. -/
theorem collision_exact (s : Screen) (sprite : Sprite) :
    (s.collides sprite = true ↔
        (∃ p : Pixel, 0 < sprite.hits p.column p.row ∧ s.get p = true) ∨
          ∃ p : Pixel, 2 ≤ sprite.hits p.column p.row) ∧
      (sprite.rows.length ≤ 32 →
        (∀ column row, sprite.hits column row ≤ 1) ∧
        (s.collides sprite = true ↔
          ∃ p, s.get p = true ∧ (s.paint (.draw sprite)).get p = false) ∧
        ((s.paint (.draw sprite)).collides sprite = true ↔
          ∃ p : Pixel, 0 < sprite.hits p.column p.row ∧ s.get p = false) ∧
        (s.collides sprite = true ∨ (s.paint (.draw sprite)).collides sprite = true ↔
          sprite.Marked)) := by
  refine ⟨s.collides_iff sprite, fun h => ?_⟩
  have first := collides_iff_of_le h s
  have second : (s.paint (.draw sprite)).collides sprite = true ↔
      ∃ p : Pixel, 0 < sprite.hits p.column p.row ∧ s.get p = false := by
    rw [collides_iff_of_le h]
    refine exists_congr fun p => and_congr_right fun hp => ?_
    rw [get_draw_of_le h]
    simp [hp]
  refine ⟨sprite.hits_le_one h, first.trans (exists_congr fun p => ?_), second, ?_⟩
  · rw [get_draw_of_le h, and_comm]
    refine and_congr_right fun hp => ?_
    simp [hp]
  · rw [first, second, sprite.marked_iff, ← exists_or]
    refine exists_congr fun p => ?_
    rw [← and_or_left]
    exact and_iff_left (Bool.eq_false_or_eq_true _)

/-- A sprite that goes round both edges hits a lit pixel and dark ones, so it collides both when it
is drawn and when it is drawn again. A sprite of 33 rows erases what it has drawn itself. -/
theorem collision_exact_wrapped :
    let s := blank.painted [.draw ⟨1, 1, [0x80]⟩]
    let sprite : Sprite := ⟨60, 30, [0xFF, 0x81, 0x81, 0xFF]⟩
    let tall : Sprite := ⟨0, 0, List.replicate 33 0x80⟩
    sprite.rows.length ≤ 32 ∧ s.collides sprite = true ∧
      (s.paint (.draw sprite)).collides sprite = true ∧ blank.collides tall = true := by
  intro s sprite tall
  have hle : sprite.rows.length ≤ 32 := by decide
  obtain ⟨first, small⟩ := collision_exact s sprite
  obtain ⟨_, _, second, _⟩ := small hle
  refine ⟨hle, first.mpr (.inl ⟨.wrap 1 1, ?_⟩), second.mpr ⟨.wrap 60 30, ?_⟩,
    (collision_exact blank tall).1.mpr (.inr ⟨.wrap 0 0, ?_⟩)⟩
  · decide +kernel
  · decide +kernel
  · decide +kernel

end Screen
end Chip8
