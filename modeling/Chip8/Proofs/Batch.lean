import Chip8.Proofs.Footprint

/-! # Batches

A batch is a path of successful steps, each from a running machine, which at most one failing step
ends. What a step keeps is kept along paths, and a tick either does nothing or follows a path. -/
namespace Chip8.Machine

/-- The words executed one after the other lead from one machine to another. -/
inductive Path : Machine → List Opcode → Machine → Prop
  | nil (m : Machine) : Path m [] m
  | cons {m m₁ m₂ : Machine} {ws : List Opcode} (running : m.mode = .running)
      (step : m.step = .ok m₁) (rest : Path m₁ ws m₂) : Path m (m.fetched :: ws) m₂

/-- The words that a batch completes, in order. -/
def completed : Nat → Machine → List Opcode
  | 0, _ => []
  | n + 1, m =>
    if m.mode = .running then
      match m.step with
      | .ok m' => m.fetched :: completed n m'
      | .error _ => []
    else []

theorem completed_of_step {m m' : Machine} (hr : m.mode = .running) (hs : m.step = .ok m')
    (n : Nat) : completed (n + 1) m = m.fetched :: completed n m' := by
  rw [completed, if_pos hr, hs]

theorem batch_of_not_running {m : Machine} (h : m.mode ≠ .running) (n : Nat) :
    batch n m = (m, none) := by
  cases n with
  | zero => rfl
  | succ n => rw [batch, if_neg h]

theorem path_of_batch {n : Nat} {m m' : Machine} (h : batch n m = (m', none)) :
    Path m (completed n m) m' := by
  induction n generalizing m with
  | zero =>
    cases h
    exact .nil _
  | succ n ih =>
    unfold batch at h
    split at h
    next hr =>
      split at h
      next m₁ hs =>
        rw [completed_of_step hr hs]
        exact .cons hr hs (ih h)
      next => cases h
    next hr =>
      cases h
      rw [completed, if_neg hr]
      exact .nil _

theorem path_of_batch_fault {n : Nat} {m m' : Machine} {fault : Fault}
    (h : batch n m = (m', some fault)) :
    ∃ a, Path m (completed n m) a ∧ a.mode = .running ∧ a.step = .error fault ∧ m' = a.failed := by
  induction n generalizing m with
  | zero => cases h
  | succ n ih =>
    unfold batch at h
    split at h
    next hr =>
      split at h
      next m₁ hs =>
        obtain ⟨a, hp, ha⟩ := ih h
        rw [completed_of_step hr hs]
        exact ⟨a, .cons hr hs hp, ha⟩
      next e hs =>
        cases h
        rw [completed, if_pos hr, hs]
        exact ⟨m, .nil m, hr, hs, rfl⟩
    next => cases h

theorem not_running_failed (m : Machine) : m.failed.mode ≠ .running := by
  have h : m.failed.mode = .halted := rfl
  rw [h]
  decide

/-- The second part of a batch runs only if the first has not failed. -/
theorem batch_add (a b : Nat) (m : Machine) :
    batch (a + b) m =
      match batch a m with
      | (m', none) => batch b m'
      | (m', some fault) => (m', some fault) := by
  induction a generalizing m with
  | zero => rw [Nat.zero_add, batch]
  | succ a ih =>
    rw [Nat.succ_add, batch, batch]
    split
    next =>
      cases m.step with
      | ok m₁ => exact ih m₁
      | error fault => rfl
    next hr => exact (batch_of_not_running hr b).symm

/-- A change that is not seen by steps which fail in the ways `P` allows, if at all, is not seen by
batches which do. -/
theorem batch_map_of {P : Fault → Prop} (φ : Machine → Machine) (mode : ∀ m, (φ m).mode = m.mode)
    (step : ∀ m, (∀ fault, m.step = .error fault → P fault) → (φ m).step = m.step.map φ)
    (failed : ∀ m, (φ m).failed = φ m.failed) (n : Nat) (m : Machine)
    (h : ∀ fault, (batch n m).2 = some fault → P fault) :
    batch n (φ m) = (φ (batch n m).1, (batch n m).2) := by
  induction n generalizing m with
  | zero => rfl
  | succ n ih =>
    rw [batch] at h
    rw [batch, batch, mode]
    split
    next hr =>
      rw [if_pos hr] at h
      cases hs : m.step with
      | ok m₁ =>
        rw [step m (by simp [hs]), hs]
        rw [hs] at h
        exact ih m₁ h
      | error fault =>
        rw [hs] at h
        have hf : P fault := h fault rfl
        rw [step m (by simp [hs, hf]), hs]
        exact congrArg (·, some fault) (failed m)
    next => rfl

/-- What no step sees or undoes, no batch does. -/
theorem batch_map (φ : Machine → Machine) (mode : ∀ m, (φ m).mode = m.mode)
    (step : ∀ m, (φ m).step = m.step.map φ) (failed : ∀ m, (φ m).failed = φ m.failed) (n : Nat)
    (m : Machine) : batch n (φ m) = (φ (batch n m).1, (batch n m).2) :=
  batch_map_of (P := fun _ => True) φ mode (fun m _ => step m) failed n m fun _ _ => trivial

namespace Path

variable {m m' : Machine} {ws : List Opcode}

theorem epoch (h : Path m ws m') : m'.epoch = m.epoch := by
  induction h with
  | nil => rfl
  | cons _ hs _ ih => exact ih.trans (epoch_of_step hs)

theorem configuration (h : Path m ws m') : m'.configuration = m.configuration := by
  induction h with
  | nil => rfl
  | cons _ hs _ ih => exact ih.trans (configuration_of_step hs)

/-- What every step keeps, a path keeps. -/
theorem keeps {P : Machine → Prop} (step : ∀ {a b : Machine}, P a → a.step = .ok b → P b)
    (h : Path m ws m') (hm : P m) : P m' := by
  induction h with
  | nil => exact hm
  | cons _ hs _ ih => exact ih (step hm hs)

/-- No instruction stops a timer. -/
theorem timer_running (h : Path m ws m') {t : Timer}
    (hr : (m.state.timers.get t).running = true) : (m'.state.timers.get t).running = true := by
  induction h with
  | nil => exact hr
  | cons _ hs _ ih => exact ih ((footprint_of_step hs).running t hr)

theorem timer_eq (h : Path m ws m') {t : Timer}
    (hw : ∀ w ∈ ws, (Opcode.meaning w).sets t = false) :
    m'.state.timers.get t = m.state.timers.get t := by
  induction h with
  | nil => rfl
  | cons _ hs _ ih =>
    have hh := (footprint_of_step hs).timer t (hw _ (by simp))
    exact (ih fun w hm => hw w (by simp [hm])).trans hh

theorem keypad_eq (h : Path m ws m') (hw : ∀ w ∈ ws, (Opcode.meaning w).awaits? = none) :
    m'.state.keypad = m.state.keypad := by
  induction h with
  | nil => rfl
  | cons _ hs _ ih =>
    have hh := (footprint_of_step hs).keypad
    rw [hw _ (by simp)] at hh
    exact (ih fun w hm => hw w (by simp [hm])).trans hh

/-- The screen changes only under a raised draw flag, which is never lowered on the way. -/
theorem screen_eq (h : Path m ws m') (hd : m'.state.drawFlag = false) :
    m.state.drawFlag = false ∧ m'.state.screen = m.state.screen := by
  induction h with
  | nil => exact ⟨hd, rfl⟩
  | cons _ hs _ ih =>
    obtain ⟨hf, he⟩ := ih hd
    have hstep := footprint_of_step hs
    have hor := hstep.drawFlag.symm.trans hf
    obtain ⟨hdraws, hflag⟩ := Bool.or_eq_false_iff.mp hor
    exact ⟨hflag, he.trans (hstep.screen hdraws)⟩

end Path

/-- The words that a tick of the given size completes. -/
def ticked (n : Nat) (m : Machine) : List Opcode := completed n (m.withDrawFlag false)

theorem tick_of_not_running {m : Machine} (h : m.mode ≠ .running) (n : Nat) :
    m.tick n = (m, .ok []) := by
  rw [tick, if_neg h]

theorem ticked_of_not_running {m : Machine} (h : m.mode ≠ .running) (n : Nat) :
    m.ticked n = [] := by
  cases n with
  | zero => rfl
  | succ n => exact if_neg h

/-- What a tick does to a running machine when none of its instructions fails. -/
structure Completes (m : Machine) (n : Nat) (m' : Machine) : Prop where
  running : m.mode = .running
  path : Path (m.withDrawFlag false) (m.ticked n) m'
  tick_eq : m.tick n =
    (m', .ok (m'.renderings ++ (m'.startedTimers m.state.timers).map m'.schedule))

/-- The instruction of `a` is the one that fails. -/
structure Fails (m : Machine) (n : Nat) (a : Machine) (fault : Fault) : Prop where
  running : m.mode = .running
  path : Path (m.withDrawFlag false) (m.ticked n) a
  still_running : a.mode = .running
  step_eq : a.step = .error fault
  tick_eq : m.tick n = (a.failed, .error fault)

theorem tick_cases (n : Nat) (m : Machine) :
    (m.mode ≠ .running ∧ m.tick n = (m, .ok [])) ∨
      (∃ m', Completes m n m') ∨ ∃ a fault, Fails m n a fault := by
  by_cases hr : m.mode = .running
  · right
    cases hb : batch n (m.withDrawFlag false) with
    | mk m' outcome =>
      cases outcome with
      | none =>
        have ht : m.tick n =
            (m', .ok (m'.renderings ++ (m'.startedTimers m.state.timers).map m'.schedule)) := by
          rw [tick, if_pos hr, hb]
        exact .inl ⟨m', hr, path_of_batch hb, ht⟩
      | some fault =>
        obtain ⟨a, hp, ha, hs, rfl⟩ := path_of_batch_fault hb
        have ht : m.tick n = (a.failed, .error fault) := by rw [tick, if_pos hr, hb]
        exact .inr ⟨a, fault, hr, hp, ha, hs, ht⟩
  · exact .inl ⟨hr, tick_of_not_running hr n⟩

/-- What steps keep is kept by ticks, as long as neither the draw flag nor a halt undoes it. -/
theorem tick_keeps {P : Machine → Prop} (step : ∀ {a b : Machine}, P a → a.step = .ok b → P b)
    (drawFlag : ∀ {a : Machine}, P a → P (a.withDrawFlag false))
    (failed : ∀ {a : Machine}, P a → a.mode = .running → P a.failed) {m : Machine} (h : P m)
    (n : Nat) : P (m.tick n).1 := by
  rcases tick_cases n m with ⟨_, ht⟩ | ⟨m', ht⟩ | ⟨a, fault, ht⟩
  · rwa [ht]
  · rw [ht.tick_eq]
    exact ht.path.keeps step (drawFlag h)
  · rw [ht.tick_eq]
    exact failed (ht.path.keeps step (drawFlag h)) ht.still_running

theorem configuration_of_tick (n : Nat) (m : Machine) :
    (m.tick n).1.configuration = m.configuration := by
  rcases tick_cases n m with ⟨_, ht⟩ | ⟨m', ht⟩ | ⟨a, fault, ht⟩
  · rw [ht]
  · rw [ht.tick_eq]
    exact ht.path.configuration
  · rw [ht.tick_eq]
    exact ht.path.configuration

/-- A tick that does not fail completes, unless there is nothing to execute. -/
theorem ok_of_tick {n : Nat} {m m' : Machine} {es : List Effect} (h : m.tick n = (m', .ok es)) :
    (m' = m ∧ es = [] ∧ m.ticked n = []) ∨ Completes m n m' := by
  rcases tick_cases n m with ⟨hr, ht⟩ | ⟨a, ha⟩ | ⟨a, fault, ha⟩
  · rw [ht] at h
    cases h
    exact .inl ⟨rfl, rfl, ticked_of_not_running hr n⟩
  · have hm : a = m' := congrArg Prod.fst (ha.tick_eq.symm.trans h)
    exact .inr (hm ▸ ha)
  · rw [ha.tick_eq] at h
    cases h

end Chip8.Machine
