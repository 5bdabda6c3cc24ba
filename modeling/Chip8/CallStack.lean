/-! # The call stack

Sixteen slots for return addresses, of which the lowest `depth` are live. A slot that is no longer
live keeps its content until a later call overwrites it. -/
namespace Chip8

structure CallStack where
  slots : Vector UInt16 16
  depth : Nat
  depth_le : depth ≤ 16
  deriving DecidableEq

namespace CallStack

def capacity : Nat := 16

def empty : CallStack := ⟨Vector.replicate 16 0, 0, by decide⟩

instance : Inhabited CallStack := ⟨empty⟩

/-- The live return addresses, the oldest first. -/
def toList (s : CallStack) : List UInt16 := s.slots.toList.take s.depth

def push? (s : CallStack) (a : UInt16) : Option CallStack :=
  if h : s.depth < 16 then some ⟨s.slots.set s.depth a h, s.depth + 1, h⟩ else none

def pop? (s : CallStack) : Option (UInt16 × CallStack) :=
  if h : 0 < s.depth then
    have hd := s.depth_le
    have hi : s.depth - 1 < 16 := by omega
    some (s.slots[s.depth - 1], ⟨s.slots, s.depth - 1, by omega⟩)
  else none

@[simp] theorem toList_empty : empty.toList = [] := rfl

@[simp] theorem length_toList (s : CallStack) : s.toList.length = s.depth := by
  simp only [toList, List.length_take, Vector.length_toList]
  exact Nat.min_eq_left s.depth_le

theorem toList_push? {s t : CallStack} {a : UInt16} (h : s.push? a = some t) :
    t.toList = s.toList ++ [a] := by
  unfold push? at h
  split at h
  next hd =>
    cases h
    simp only [toList, Vector.toList_set]
    rw [List.take_succ_eq_append_getElem (by simpa using hd)]
    simp [List.take_set_of_le]
  next => cases h

theorem push?_eq_none_iff (s : CallStack) (a : UInt16) : s.push? a = none ↔ s.depth = 16 := by
  have h := s.depth_le
  unfold push?
  split <;> simp <;> omega

theorem toList_pop? {s t : CallStack} {a : UInt16} (h : s.pop? = some (a, t)) :
    s.toList = t.toList ++ [a] := by
  unfold pop? at h
  split at h
  next hd =>
    have hle := s.depth_le
    simp only [Option.some.injEq, Prod.mk.injEq] at h
    obtain ⟨rfl, rfl⟩ := h
    have hlt : s.depth - 1 < s.slots.toList.length := by simp; omega
    have ht := List.take_succ_eq_append_getElem hlt
    rw [Nat.sub_add_cancel hd] at ht
    simpa [toList] using ht
  next => cases h

theorem pop?_eq_none_iff (s : CallStack) : s.pop? = none ↔ s.depth = 0 := by
  unfold pop?
  split <;> simp <;> omega

end CallStack
end Chip8
