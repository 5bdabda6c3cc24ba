import Chip8.Screen
import Mathlib.Algebra.BigOperators.Intervals
import Mathlib.Algebra.BigOperators.Group.List.Basic
import Mathlib.Algebra.Ring.Parity
import Mathlib.Data.Nat.Count

/-! # Painting

Sprites toggle pixels, so after any drawing a pixel is lit exactly if it was hit an odd number of
times since the screen was last cleared. The order of the sprites does not matter. -/
namespace Chip8

/-- A sprite with the place it is drawn at. -/
structure Sprite where
  x : Nat
  y : Nat
  rows : List UInt8

namespace Sprite

/-- The row and bit indices of the set bits that lie on a pixel. -/
def bitsOn (s : Sprite) (column row : Nat) : Finset (Nat × Nat) :=
  (Finset.range s.rows.length ×ˢ Finset.range 8).filter fun (i, k) =>
    spriteBit (s.rows.getD i 0) k = true ∧ (s.x + k) % 64 = column ∧ (s.y + i) % 32 = row

/-- How often the sprite hits a pixel. -/
def hits (s : Sprite) (column row : Nat) : Nat := (s.bitsOn column row).card

theorem hits_eq_sum (s : Sprite) (column row : Nat) :
    s.hits column row = ∑ i ∈ Finset.range s.rows.length, ∑ k ∈ Finset.range 8,
      if spriteBit (s.rows.getD i 0) k = true ∧ (s.x + k) % 64 = column ∧ (s.y + i) % 32 = row
      then 1 else 0 := by
  rw [hits, bitsOn, Finset.card_filter, Finset.sum_product]

theorem count_rowHits (x y : Nat) (b : UInt8) (p : Pixel) :
    (rowHits x y b).count p = ∑ k ∈ Finset.range 8,
      if spriteBit b k = true ∧ (x + k) % 64 = p.column ∧ y % 32 = p.row then 1 else 0 := by
  have hp (k : Nat) : Pixel.wrap (x + k) y = p ↔ (x + k) % 64 = p.column ∧ y % 32 = p.row := by
    cases p
    simp [Pixel.wrap, Fin.ext_iff]
  rw [rowHits, List.count, List.countP_map, List.countP_filter, List.countP_eq_length_filter,
    ← Finset.card_filter, Finset.card_def, Finset.filter_val, Finset.range_val,
    ← Multiset.coe_range, Multiset.filter_coe, Multiset.coe_card]
  congr 2
  funext k
  rw [Bool.eq_iff_iff, Bool.and_eq_true, decide_eq_true_iff, Function.comp_apply, beq_iff_eq, hp,
    and_comm]

theorem hits_cons (x y : Nat) (b : UInt8) (bs : List UInt8) (p : Pixel) :
    hits ⟨x, y, b :: bs⟩ p.column p.row =
      (rowHits x y b).count p + hits ⟨x, y + 1, bs⟩ p.column p.row := by
  rw [hits_eq_sum, hits_eq_sum, count_rowHits, List.length_cons, Finset.sum_range_succ', add_comm]
  simp only [List.getD_cons_succ, List.getD_cons_zero, Nat.add_zero, Nat.add_assoc, Nat.add_comm 1]

theorem count_spriteHits (x y : Nat) (bs : List UInt8) (p : Pixel) :
    (spriteHits x y bs).count p = hits ⟨x, y, bs⟩ p.column p.row := by
  induction bs generalizing y with
  | nil => rfl
  | cons b bs ih => rw [spriteHits, List.count_append, ih, hits_cons]

end Sprite

inductive Stroke
  | clear
  | draw (s : Sprite)

/-- The sprites drawn since the screen was last cleared, when `drawn` are those before. -/
def sinceClear (drawn : List Sprite) : List Stroke → List Sprite
  | [] => drawn
  | .clear :: ss => sinceClear [] ss
  | .draw s :: ss => sinceClear (drawn ++ [s]) ss

/-- How often the sprites hit a pixel. -/
def totalHits (ss : List Sprite) (column row : Nat) : Nat := (ss.map (·.hits column row)).sum

namespace Screen

def paint (s : Screen) : Stroke → Screen
  | .clear => .blank
  | .draw sprite => (s.draw sprite.x sprite.y sprite.rows).1

/-- The screen after all of the strokes, one after the other. -/
def painted (s : Screen) : List Stroke → Screen
  | [] => s
  | stroke :: ss => (s.paint stroke).painted ss

theorem painted_append (s : Screen) (ss ss' : List Stroke) :
    s.painted (ss ++ ss') = (s.painted ss).painted ss' := by
  induction ss generalizing s with
  | nil => rfl
  | cons stroke ss ih => exact ih _

theorem ext_get {s s' : Screen} (h : ∀ p, s.get p = s'.get p) : s = s' := by
  have hc : s.cells = s'.cells := by
    ext i hi
    have hp : (Pixel.wrap i (i / 64)).index.val = i := by
      simp only [Pixel.index, Pixel.wrap]
      omega
    have hg := h (.wrap i (i / 64))
    simp only [get, Fin.getElem_fin, hp] at hg
    exact hg
  cases s
  cases s'
  exact congrArg mk hc

theorem get_draw (s : Screen) (sprite : Sprite) (p : Pixel) :
    (s.paint (.draw sprite)).get p =
      (s.get p != decide (Odd (sprite.hits p.column p.row))) := by
  rw [paint, draw, get_toggle, Sprite.count_spriteHits]
  simp only [Nat.odd_iff]

theorem decide_odd_add (a b : Nat) :
    decide (Odd (a + b)) = (decide (Odd a) != decide (Odd b)) := by
  by_cases ha : Odd a <;> by_cases hb : Odd b <;> simp [Nat.odd_add, ← Nat.not_odd_iff_even, ha, hb]

/-- Among sprites, each toggles the pixels that the others have left. -/
theorem get_painted_draws (s : Screen) (ss : List Sprite) (p : Pixel) :
    (s.painted (ss.map .draw)).get p =
      (s.get p != decide (Odd (totalHits ss p.column p.row))) := by
  induction ss generalizing s with
  | nil => simp [painted, totalHits]
  | cons sprite ss ih =>
    have ht : totalHits (sprite :: ss) p.column p.row =
        sprite.hits p.column p.row + totalHits ss p.column p.row := rfl
    rw [List.map_cons, painted, ih, get_draw, ht, decide_odd_add]
    exact Bool.xor_assoc _ _ _

theorem painted_sinceClear (drawn : List Sprite) (history : List Stroke) :
    (blank.painted (drawn.map .draw)).painted history =
      blank.painted ((sinceClear drawn history).map .draw) := by
  induction history generalizing drawn with
  | nil => rfl
  | cons stroke history ih =>
    cases stroke with
    | clear => exact ih []
    | draw sprite =>
      rw [sinceClear, ← ih, List.map_append, painted_append]
      rfl

theorem painted_perm {ss ss' : List Sprite} (h : ss.Perm ss') (s : Screen) :
    s.painted (ss.map .draw) = s.painted (ss'.map .draw) := by
  apply ext_get
  intro p
  have ht : totalHits ss p.column p.row = totalHits ss' p.column p.row := (h.map _).sum_eq
  rw [get_painted_draws, get_painted_draws, ht]

theorem painted_twice (s : Screen) (sprite : Sprite) :
    s.painted [.draw sprite, .draw sprite] = s := by
  apply ext_get
  intro p
  have he : ¬Odd (totalHits [sprite, sprite] p.column p.row) := by
    simp [totalHits, ← two_mul]
  exact (get_painted_draws s [sprite, sprite] p).trans (by simp [he])

/-- A pixel is lit exactly if the sprites drawn since the last clearing hit it an odd number of
times. Hence sprites may be drawn in any order, and a sprite drawn again takes itself back. -/
theorem lit_iff_odd_hits :
    (∀ (history : List Stroke) (column row : Nat),
      (blank.painted history).isLit column row = true ↔
        column < 64 ∧ row < 32 ∧ Odd (totalHits (sinceClear [] history) column row)) ∧
      (∀ (before after : List Stroke) (ss ss' : List Sprite), ss.Perm ss' →
        blank.painted (before ++ ss.map .draw ++ after) =
          blank.painted (before ++ ss'.map .draw ++ after)) ∧
      ∀ (s : Screen) (sprite : Sprite), s.painted [.draw sprite, .draw sprite] = s := by
  refine ⟨fun history column row => ?_, fun before after ss ss' h => ?_, painted_twice⟩
  · have hp (p : Pixel) : (blank.painted history).get p =
        decide (Odd (totalHits (sinceClear [] history) p.column p.row)) := by
      have hs : blank.painted history = blank.painted ((sinceClear [] history).map .draw) :=
        painted_sinceClear [] history
      rw [hs, get_painted_draws, get_blank, Bool.false_bne]
    unfold isLit
    split
    next hon => simp [hp, hon]
    next hoff =>
      constructor
      · nofun
      · exact fun h => absurd ⟨h.1, h.2.1⟩ hoff
  · simp only [painted_append, painted_perm h]

/-- A sprite of 33 rows hits the last pixel twice, and another sprite hits it once. -/
theorem lit_iff_odd_hits_tall :
    let tall : Sprite := ⟨63, 31, List.replicate 33 0x80⟩
    let ring : Sprite := ⟨60, 30, [0xF0, 0x90, 0xF0]⟩
    totalHits [tall, ring] 63 31 = 3 ∧
      (blank.painted [.draw ring, .clear, .draw tall, .draw ring]).isLit 63 31 = true ∧
      blank.painted [.draw ring, .clear, .draw tall, .draw ring] =
        blank.painted [.draw ring, .clear, .draw ring, .draw tall] := by
  intro tall ring
  have hits : totalHits [tall, ring] 63 31 = 3 := by decide +kernel
  obtain ⟨lit, perm, _⟩ := lit_iff_odd_hits
  have odd : Odd (totalHits [tall, ring] 63 31) := by rw [hits]; decide
  refine ⟨hits, (lit _ 63 31).mpr ⟨by decide, by decide, odd⟩, ?_⟩
  exact perm [.draw ring, .clear] [] [tall, ring] [ring, tall] (.swap ring tall [])

end Screen
end Chip8
