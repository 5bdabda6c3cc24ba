import Chip8.Countdown

/-! # The agenda

Timer ticks that have been asked for and are not yet due, earliest first. Ticks that are due at the
same time keep the order in which they were scheduled. -/
namespace Chip8

/-- The longest duration that is kept as 64 bits of seconds and the nanoseconds beyond them. -/
def longestDuration : Nat := UInt64.size * 1000000000 - 1

structure PendingTick where
  /-- Nanoseconds since the session began. Nothing here keeps the sum of a time and a period below
  `longestDuration`; in a run from the command line it stays there, by `Options.inRange`. -/
  due : Nat
  timer : Timer
  epoch : UInt32
  deriving DecidableEq

structure Agenda where
  ticks : List PendingTick
  sorted : ticks.Pairwise fun a b => a.due ≤ b.due
  deriving DecidableEq

namespace Agenda

def empty : Agenda := ⟨[], .nil⟩

instance : Inhabited Agenda := ⟨empty⟩

def insert (t : PendingTick) : List PendingTick → List PendingTick
  | [] => [t]
  | u :: us => if u.due ≤ t.due then u :: insert t us else t :: u :: us

theorem mem_insert {t u : PendingTick} {ts : List PendingTick} :
    u ∈ insert t ts ↔ u = t ∨ u ∈ ts := by
  induction ts with
  | nil => simp [insert]
  | cons v vs ih =>
    unfold insert
    split <;> simp [ih, or_left_comm]

theorem sorted_insert {t : PendingTick} {ts : List PendingTick}
    (h : ts.Pairwise fun a b => a.due ≤ b.due) :
    (insert t ts).Pairwise fun a b => a.due ≤ b.due := by
  induction ts with
  | nil => simp [insert]
  | cons u us ih =>
    obtain ⟨hu, hs⟩ := List.pairwise_cons.mp h
    unfold insert
    split
    next hle =>
      refine List.pairwise_cons.mpr ⟨fun v hv => ?_, ih hs⟩
      rcases mem_insert.mp hv with rfl | hv
      · exact hle
      · exact hu v hv
    next hlt =>
      refine List.pairwise_cons.mpr ⟨fun v hv => ?_, h⟩
      rcases List.mem_cons.mp hv with rfl | hv
      · omega
      · have := hu v hv
        omega

def schedule (a : Agenda) (t : PendingTick) : Agenda :=
  ⟨insert t a.ticks, sorted_insert a.sorted⟩

/-- The earliest tick if it is due by `now`, with the agenda that remains. -/
def popDue? (a : Agenda) (now : Nat) : Option (PendingTick × Agenda) :=
  match a with
  | ⟨[], _⟩ => none
  | ⟨t :: ts, h⟩ => if t.due ≤ now then some (t, ⟨ts, (List.pairwise_cons.mp h).2⟩) else none

def length (a : Agenda) : Nat := a.ticks.length

@[simp] theorem length_insert (t : PendingTick) (ts : List PendingTick) :
    (insert t ts).length = ts.length + 1 := by
  induction ts with
  | nil => rfl
  | cons u us ih =>
    unfold insert
    split <;> simp [ih]

theorem length_schedule (a : Agenda) (t : PendingTick) :
    (a.schedule t).length = a.length + 1 := by
  simp [schedule, length]

theorem ticks_of_popDue? {a b : Agenda} {now : Nat} {t : PendingTick}
    (h : a.popDue? now = some (t, b)) : a.ticks = t :: b.ticks ∧ t.due ≤ now := by
  unfold popDue? at h
  split at h
  · cases h
  · split at h
    · cases h
      exact ⟨rfl, by assumption⟩
    · cases h

/-- Nothing is popped exactly when every tick is due later. -/
theorem popDue?_eq_none_iff (a : Agenda) (now : Nat) :
    a.popDue? now = none ↔ ∀ t ∈ a.ticks, now < t.due := by
  unfold popDue?
  split
  · simp
  · rename_i t ts h
    have hm := (List.pairwise_cons.mp h).1
    split
    · simp only [reduceCtorEq, List.mem_cons, forall_eq_or_imp, false_iff]
      omega
    · simp only [List.mem_cons, forall_eq_or_imp, true_iff]
      refine ⟨by omega, fun u hu => ?_⟩
      have := hm u hu
      omega

end Agenda
end Chip8
