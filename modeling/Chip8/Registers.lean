import Chip8.Address
import Chip8.Arithmetic
import Chip8.CallStack
import Chip8.Fault
import Chip8.Nibble

/-! # Registers

Sixteen byte registers, the index, the program counter and the call stack. The program counter is
advanced past an instruction before it executes, so the instruction under way is two bytes back. -/
namespace Chip8

structure Registers where
  v : Vector UInt8 16
  i : UInt16
  pc : UInt16
  stack : CallStack
  deriving DecidableEq

def programStart : UInt16 := 0x200

def instructionSize : UInt16 := 2

namespace Registers

/-- The register that receives carries, borrows and collisions. -/
def flag : Register := Nibble.ofNat 0xF

def initial : Registers := ⟨Vector.replicate 16 0, 0, programStart, .empty⟩

instance : Inhabited Registers := ⟨initial⟩

def get (r : Registers) (x : Register) : UInt8 := r.v[x]

def set (r : Registers) (x : Register) (b : UInt8) : Registers :=
  { r with v := r.v.set x.val b x.isLt }

def setIndex (r : Registers) (w : UInt16) : Registers := { r with i := w }

def jump (r : Registers) (w : UInt16) : Registers := { r with pc := w % 4096 }

def advance (r : Registers) : Registers := r.jump (r.pc + instructionSize)

def skipIf (r : Registers) (condition : Bool) : Registers := if condition then r.advance else r

def current (r : Registers) : UInt16 := (r.pc - instructionSize) % 4096

def push (r : Registers) (w : UInt16) : Except Fault Registers :=
  match r.stack.push? w with
  | some stack => .ok { r with stack }
  | none => .error (.stackOverflow r.current)

def pop (r : Registers) : Except Fault (UInt16 × Registers) :=
  match r.stack.pop? with
  | some (w, stack) => .ok (w, { r with stack })
  | none => .error (.stackUnderflow r.current)

/-- The flag is written last, so it wins when it is also the target. -/
def operate (r : Registers) (op : Operation) (x y : Register) : Registers :=
  let a := r.get x
  let b := r.get y
  let r := r.set x (op.result a b)
  match op.flag? a b with
  | some f => r.set flag f
  | none => r

/-- Writes the bytes to consecutive registers from `x` on, as far as there are registers. -/
def setFrom (r : Registers) (x : Nat) : List UInt8 → Registers
  | [] => r
  | b :: bs => if h : x < 16 then (r.set ⟨x, h⟩ b).setFrom (x + 1) bs else r

/-- The contents of the registers from the first to `x`. -/
def upTo (r : Registers) (x : Register) : List UInt8 := r.v.toList.take (x.val + 1)

theorem get_set (r : Registers) (x y : Register) (b : UInt8) :
    (r.set x b).get y = if y = x then b else r.get y := by
  simp only [get, set, Fin.getElem_fin, Vector.getElem_set, Fin.ext_iff, eq_comm]

theorem toNat_pc_jump (r : Registers) (w : UInt16) : (r.jump w).pc.toNat = w.toNat % 4096 := by
  simp [jump, UInt16.toNat_mod]

theorem toNat_pc_advance (r : Registers) : r.advance.pc.toNat = (r.pc.toNat + 2) % 4096 := by
  rw [advance, toNat_pc_jump, UInt16.toNat_add]
  rw [show instructionSize.toNat = 2 from rfl]
  omega

end Registers
end Chip8
