import Chip8.Nibble

/-! # The keypad

Which of the sixteen keys are down, and the register, if any, that waits for the next press. -/
namespace Chip8

structure Keypad where
  pressed : Vector Bool 16
  waiting : Option Register
  deriving DecidableEq

namespace Keypad

def idle : Keypad := ⟨Vector.replicate 16 false, none⟩

instance : Inhabited Keypad := ⟨idle⟩

def isPressed (k : Keypad) (key : Key) : Bool := k.pressed[key]

/-- Also answers the register that was waiting, which waits no longer. -/
def press (k : Keypad) (key : Key) : Keypad × Option Register :=
  (⟨k.pressed.set key.val true key.isLt, none⟩, k.waiting)

def release (k : Keypad) (key : Key) : Keypad :=
  { k with pressed := k.pressed.set key.val false key.isLt }

def await (k : Keypad) (x : Register) : Keypad := { k with waiting := some x }

def pressedKeys (k : Keypad) : List Key := (List.finRange 16).filter k.isPressed

theorem isPressed_press (k : Keypad) (key other : Key) :
    (k.press key).1.isPressed other = (decide (other = key) || k.isPressed other) := by
  by_cases h : other = key
  · subst h
    simp [isPressed, press]
  · have hv : key.val ≠ other.val := fun he => h (Fin.ext he).symm
    simp [isPressed, press, h, hv]

theorem isPressed_release (k : Keypad) (key other : Key) :
    (k.release key).isPressed other = (decide (other ≠ key) && k.isPressed other) := by
  by_cases h : other = key
  · subst h
    simp [isPressed, release]
  · have hv : key.val ≠ other.val := fun he => h (Fin.ext he).symm
    simp [isPressed, release, h, hv]

end Keypad
end Chip8
