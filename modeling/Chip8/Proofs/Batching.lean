import Chip8.Proofs.Effects

/-! # Batching

A tick of `a + b` instructions does what a tick of `a` and then one of `b` do. A tick lowers the
draw flag when it begins, so after the single tick the flag can be up where it is down after the
two. Apart from that a flag raised beforehand stays raised and influences nothing. -/
namespace Chip8

namespace State

/-- The draw flag is raised if `drawn`. -/
def marked (drawn : Bool) (s : State) : State := { s with drawFlag := drawn || s.drawFlag }

theorem execute_marked (drawn : Bool) (s : State) (g : Generator) (i : Instruction) :
    (s.marked drawn).execute g i =
      (s.execute g i).map fun (s', g') => (s'.marked drawn, g') := by
  cases i with
  | ret => cases h : s.registers.pop <;> simp [execute, marked, h, Except.map]
  | call a => cases h : s.registers.push s.registers.pc <;> simp [execute, marked, h, Except.map]
  | clear | draw => cases drawn <;> rfl
  | skip c => cases c <;> rfl
  | _ => rfl

end State

namespace Machine

def marked (drawn : Bool) (m : Machine) : Machine := { m with state := m.state.marked drawn }

theorem marked_lowered (m : Machine) : (m.withDrawFlag false).marked m.state.drawFlag = m := by
  simp [marked, withDrawFlag, State.marked]

theorem step_marked (drawn : Bool) (m : Machine) :
    (m.marked drawn).step = m.step.map (marked drawn) := by
  have hf : (m.marked drawn).fetched = m.fetched := rfl
  have hc : (m.marked drawn).configuration = m.configuration := rfl
  unfold step
  rw [hf, hc]
  cases Instruction.decode? m.fetched with
  | none => cases m.configuration.unknownOpcode <;> rfl
  | some i =>
    have he := State.execute_marked drawn m.advanced.state m.random i
    change ((m.advanced.state.marked drawn).execute m.random i).map _ =
      ((m.advanced.state.execute m.random i).map _).map _
    rw [he]
    cases m.advanced.state.execute m.random i <;> rfl

theorem batch_marked (drawn : Bool) (n : Nat) (m : Machine) :
    batch n (m.marked drawn) = ((batch n m).1.marked drawn, (batch n m).2) :=
  batch_map (marked drawn) (fun _ => rfl) (step_marked drawn) (fun _ => rfl) n m

/-- Since timers never stop on the way, each of them starts in at most one of two parts. -/
theorem startedTimers_perm {before : Timers} {m₁ m₂ : Machine}
    (h₁ : ∀ t, (before.get t).running = true → (m₁.state.timers.get t).running = true)
    (h₂ : ∀ t, (m₁.state.timers.get t).running = true → (m₂.state.timers.get t).running = true) :
    (m₂.startedTimers before).Perm
      (m₁.startedTimers before ++ m₂.startedTimers m₁.state.timers) := by
  have hd : (m₁.startedTimers before ++ m₂.startedTimers m₁.state.timers).Nodup := by
    apply List.nodup_append.mpr
    refine ⟨nodup_startedTimers _ _, nodup_startedTimers _ _, ?_⟩
    rintro t ht u hu rfl
    have hr := (mem_startedTimers.mp ht).2
    have hn := (mem_startedTimers.mp hu).1
    rw [hr] at hn
    cases hn
  apply (List.perm_ext_iff_of_nodup (nodup_startedTimers _ _) hd).mpr
  intro t
  rw [List.mem_append, mem_startedTimers, mem_startedTimers, mem_startedTimers]
  have ht₁ := h₁ t
  have ht₂ := h₂ t
  revert ht₁ ht₂
  cases (before.get t).running <;> cases (m₁.state.timers.get t).running <;> simp

end Machine

/-- The effects `es` of one tick that does the work of two ticks with the effects `es₁` and `es₂`
and leaves the given screen. -/
structure Merged (screen : Screen) (es₁ es₂ es : List Effect) : Prop where
  eq : es = (frames es).map .render ++ schedulings es
  frames_eq : frames es = (frames (es₁ ++ es₂)).getLast?.toList
  frame_eq : ∀ frame ∈ frames es, frame = screen
  schedulings_perm : (schedulings es).Perm (schedulings (es₁ ++ es₂))
  ordered : (es.filterMap Effect.timer?).Sublist Timer.all

namespace Merged

theorem nil (screen : Screen) : Merged screen [] [] [] :=
  ⟨rfl, rfl, by simp [frames], .nil, by simp⟩

/-- The second tick finds the machine waiting for a key. -/
theorem of_idle (m : Machine) (before : Timers) :
    Merged m.state.screen (m.effectsSince before) [] (m.effectsSince before) where
  eq := m.effectsSince_eq before
  frames_eq := by
    rw [List.append_nil, Machine.frames_effectsSince]
    split <;> rfl
  frame_eq := by
    intro frame hf
    rw [Machine.frames_effectsSince] at hf
    split at hf <;> simp_all
  schedulings_perm := by rw [List.append_nil]
  ordered := by
    rw [Machine.timers_effectsSince]
    exact List.filter_sublist

theorem of_path {before : Timers} {m₁ m₂ : Machine} {ws : List Opcode}
    (hb : ∀ t, (before.get t).running = true → (m₁.state.timers.get t).running = true)
    (hp : Machine.Path (m₁.withDrawFlag false) ws m₂) :
    Merged m₂.state.screen (m₁.effectsSince before) (m₂.effectsSince m₁.state.timers)
      ((m₂.marked m₁.state.drawFlag).effectsSince before) where
  eq := Machine.effectsSince_eq _ before
  frames_eq := by
    have hs : m₂.state.drawFlag = false → m₂.state.screen = m₁.state.screen :=
      fun hd => (hp.screen_eq hd).2
    rw [frames_append, Machine.frames_effectsSince, Machine.frames_effectsSince,
      Machine.frames_effectsSince]
    simp only [Machine.marked, State.marked]
    by_cases h₂ : m₂.state.drawFlag = true
    · simp [h₂]
    · rw [hs (Bool.not_eq_true _ ▸ h₂)]
      by_cases h₁ : m₁.state.drawFlag = true <;> simp [h₁, h₂]
  frame_eq := by
    intro frame hf
    rw [Machine.frames_effectsSince] at hf
    split at hf
    next => exact List.mem_singleton.mp hf
    next => cases hf
  schedulings_perm := by
    have he : m₁.schedule = m₂.schedule := by
      funext t
      rw [Machine.schedule, Machine.schedule, hp.epoch]
      rfl
    have hr : ∀ t, (m₁.state.timers.get t).running = true →
        (m₂.state.timers.get t).running = true := fun _ => hp.timer_running
    rw [schedulings_append, Machine.schedulings_effectsSince, Machine.schedulings_effectsSince,
      Machine.schedulings_effectsSince, he, ← List.map_append]
    exact (Machine.startedTimers_perm hb hr).map m₂.schedule
  ordered := by
    rw [Machine.timers_effectsSince]
    exact List.filter_sublist

end Merged

/-- What two ticks, one after the other, have in common with the single tick `whole`. -/
structure Batched (first second whole : Machine × Response) : Prop where
  machine_eq : ∃ drawn, second.1 = whole.1.withDrawFlag drawn
  error_iff : ∀ fault, whole.2 = .error fault ↔
    first.2 = .error fault ∨ second.2 = .error fault
  merged : ∀ es₁ es₂, first.2 = .ok es₁ → second.2 = .ok es₂ →
    ∃ es, whole.2 = .ok es ∧ Merged whole.1.state.screen es₁ es₂ es

namespace Batched

variable {m m₁ m₂ : Machine} {fault : Fault} {es₁ es₂ es : List Effect}

theorem of_fault_first : Batched (m, .error fault) (m, .ok []) (m, .error fault) where
  machine_eq := ⟨m.state.drawFlag, rfl⟩
  error_iff := by simp
  merged := by
    intro _ _ h
    cases h

theorem of_fault_second (drawn : Bool) :
    Batched (m₁, .ok es₁) (m₂, .error fault) (m₂.marked drawn, .error fault) where
  machine_eq := ⟨m₂.state.drawFlag, rfl⟩
  error_iff := by simp
  merged := by
    intro _ _ _ h
    cases h

theorem of_merged (drawn : Bool) (h : Merged m₂.state.screen es₁ es₂ es) :
    Batched (m₁, .ok es₁) (m₂, .ok es₂) (m₂.marked drawn, .ok es) where
  machine_eq := ⟨m₂.state.drawFlag, rfl⟩
  error_iff := by simp
  merged := by
    intro _ _ h₁ h₂
    cases h₁
    cases h₂
    exact ⟨es, rfl, h⟩

end Batched

namespace Machine

/-- The second tick of a machine that still runs after the first. -/
theorem batched_of_running {a b : Nat} {m m₁ : Machine} (hr : m.mode = .running)
    (hb : batch a (m.withDrawFlag false) = (m₁, none)) (h₁ : m₁.mode = .running) :
    Batched (m.tick a) (m₁.tick b) (m.tick (a + b)) := by
  have hw : batch (a + b) (m.withDrawFlag false) =
      ((batch b (m₁.withDrawFlag false)).1.marked m₁.state.drawFlag,
        (batch b (m₁.withDrawFlag false)).2) := by
    rw [← batch_marked, marked_lowered, batch_add, hb]
  rw [tick_of_running hr a, tick_of_running h₁ b, tick_of_running hr (a + b), hw, hb]
  cases hb₂ : batch b (m₁.withDrawFlag false) with
  | mk m₂ outcome =>
    cases outcome with
    | some fault => exact .of_fault_second _
    | none =>
      have hrun : ∀ t, (m.state.timers.get t).running = true →
          (m₁.state.timers.get t).running = true := fun _ => (path_of_batch hb).timer_running
      exact .of_merged _ (.of_path hrun (path_of_batch hb₂))

/-- Two ticks, one after the other, do what one tick of both their instructions does: they leave
the same machine but for the draw flag and fail with the same fault. If none fails, the single tick
schedules what the two schedule and shows the last frame that they show. -/
theorem tick_add (a b : Nat) (m : Machine) :
    Batched (m.tick a) ((m.tick a).1.tick b) (m.tick (a + b)) := by
  by_cases hr : m.mode = .running
  · cases hb : batch a (m.withDrawFlag false) with
    | mk m₁ outcome =>
      cases outcome with
      | some fault =>
        have hf : m.tick a = (m₁, .error fault) := by rw [tick_of_running hr, hb]
        have hw : m.tick (a + b) = (m₁, .error fault) := by
          rw [tick_of_running hr, batch_add, hb]
        have hs : m₁.tick b = (m₁, .ok []) := by
          obtain ⟨_, _, _, _, rfl⟩ := path_of_batch_fault hb
          exact tick_of_not_running (not_running_failed _) b
        rw [hf, hw, hs]
        exact .of_fault_first
      | none =>
        have hf : m.tick a = (m₁, .ok (m₁.effectsSince m.state.timers)) := by
          rw [tick_of_running hr, hb]
        by_cases h₁ : m₁.mode = .running
        · rw [congrArg Prod.fst hf]
          exact batched_of_running hr hb h₁
        · have hs : m₁.tick b = (m₁, .ok []) := tick_of_not_running h₁ b
          have hw : m.tick (a + b) = (m₁, .ok (m₁.effectsSince m.state.timers)) := by
            rw [tick_of_running hr, batch_add, hb]
            simp only [batch_of_not_running h₁ b]
          rw [hf, hw, hs]
          exact .of_merged false (.of_idle m₁ m.state.timers)
  · have hs : m.tick b = (m, .ok []) := tick_of_not_running hr b
    rw [tick_of_not_running hr a, tick_of_not_running hr (a + b), hs]
    exact .of_merged false (.nil m.state.screen)

end Machine
end Chip8
