/-! # The screen

One bit per pixel, 64 columns by 32 rows. A sprite is a list of bytes, one per row, the highest bit
leftmost; drawing it toggles the pixel under each of its set bits, wrapping at the edges, and
reports whether a toggled pixel was lit. -/
namespace Chip8

structure Pixel where
  column : Fin 64
  row : Fin 32
  deriving DecidableEq

namespace Pixel

def wrap (x y : Nat) : Pixel :=
  ⟨⟨x % 64, Nat.mod_lt x (by decide)⟩, ⟨y % 32, Nat.mod_lt y (by decide)⟩⟩

def index (p : Pixel) : Fin 2048 :=
  ⟨64 * p.row.val + p.column.val, by have := p.row.isLt; have := p.column.isLt; omega⟩

theorem index_injective {p q : Pixel} (h : p.index = q.index) : p = q := by
  cases p with | mk c r => cases q with | mk d s =>
  have hc := c.isLt
  have hd := d.isLt
  have hv := congrArg Fin.val h
  simp only [index] at hv
  have hcd : c = d := Fin.ext (by omega)
  have hrs : r = s := Fin.ext (by omega)
  rw [hcd, hrs]

end Pixel

def spriteBit (row : UInt8) (k : Nat) : Bool := row.toNat.testBit (7 - k)

/-- The pixels under the set bits of one row of a sprite, from left to right. -/
def rowHits (x y : Nat) (row : UInt8) : List Pixel :=
  ((List.range 8).filter (spriteBit row)).map fun k => .wrap (x + k) y

/-- The pixels under the set bits of a sprite at `x`, `y`, row by row. A sprite of more than 32
rows can hit a pixel more than once. -/
def spriteHits (x y : Nat) : List UInt8 → List Pixel
  | [] => []
  | row :: rows => rowHits x y row ++ spriteHits x (y + 1) rows

structure Screen where
  cells : Vector Bool 2048
  deriving DecidableEq

namespace Screen

def width : Nat := 64

def height : Nat := 32

def blank : Screen := ⟨Vector.replicate 2048 false⟩

instance : Inhabited Screen := ⟨blank⟩

def get (s : Screen) (p : Pixel) : Bool := s.cells[p.index]

def set (s : Screen) (p : Pixel) (lit : Bool) : Screen :=
  ⟨s.cells.set p.index.val lit p.index.isLt⟩

/-- A position outside the screen is never lit. -/
def isLit (s : Screen) (column row : Nat) : Bool :=
  if h : column < 64 ∧ row < 32 then s.get ⟨⟨column, h.1⟩, ⟨row, h.2⟩⟩ else false

/-- Toggles the pixels one after the other and reports whether one of them was lit when its turn
came. -/
def toggle (s : Screen) (collision : Bool) : List Pixel → Screen × Bool
  | [] => (s, collision)
  | p :: ps =>
    let lit := s.get p
    (s.set p !lit).toggle (collision || lit) ps

def draw (s : Screen) (x y : Nat) (rows : List UInt8) : Screen × Bool :=
  s.toggle false (spriteHits x y rows)

def row (s : Screen) (y : Fin 32) : List Bool := (List.finRange 64).map fun x => s.get ⟨x, y⟩

def toRows (s : Screen) : List (List Bool) := (List.finRange 32).map s.row

def ofFn (f : Pixel → Bool) : Screen :=
  ⟨Vector.ofFn fun i => f ⟨⟨i.val % 64, Nat.mod_lt _ (by decide)⟩, ⟨i.val / 64, by omega⟩⟩⟩

@[simp] theorem get_blank (p : Pixel) : blank.get p = false := by
  simp [get, blank]

theorem get_set (s : Screen) (p q : Pixel) (lit : Bool) :
    (s.set p lit).get q = if q = p then lit else s.get q := by
  by_cases h : q = p
  · subst h
    simp [get, set]
  · have hi : p.index.val ≠ q.index.val := fun he => h (Pixel.index_injective (Fin.ext he)).symm
    simp [get, set, h, hi]

/-- A pixel ends lit when it was lit and is toggled an even number of times, or was dark and is
toggled an odd number of times. -/
theorem get_toggle (s : Screen) (c : Bool) (ps : List Pixel) (q : Pixel) :
    (s.toggle c ps).1.get q = (s.get q != decide (ps.count q % 2 = 1)) := by
  induction ps generalizing s c with
  | nil => simp [toggle]
  | cons p ps ih =>
    rw [toggle, ih, get_set, List.count_cons]
    by_cases h : q = p
    · subst h
      have hm := Nat.mod_two_eq_zero_or_one (ps.count q)
      rcases hm with hm | hm <;> cases hg : s.get q <;> simp [hm, Nat.add_mod]
    · have h' : (p == q) = false := by simp [Ne.symm h]
      simp [h, h']

end Screen
end Chip8
