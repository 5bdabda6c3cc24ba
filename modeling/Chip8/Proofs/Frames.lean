import Chip8.Proofs.Loading
import Chip8.Proofs.TimerTicks

/-! # Frames

A response shows the screen whenever the screen has changed, once and as it is afterwards. -/
namespace Chip8.Machine

/-- Among the effects is the screen of `m'` as the only frame, or none if it is that of `m`. -/
def Shows (m m' : Machine) (es : List Effect) : Prop :=
  (frames es = [] ∧ m'.state.screen = m.state.screen) ∨ frames es = [m'.state.screen]

variable {m m' : Machine} {es : List Effect}

theorem Shows.length_le (h : m.Shows m' es) : (frames es).length ≤ 1 := by
  rcases h with ⟨hf, _⟩ | hf <;> simp [hf]

/-- A batch that has drawn nothing has left the screen alone. -/
theorem shows_of_tick {n : Nat} (h : m.tick n = (m', .ok es)) : m.Shows m' es := by
  rcases ok_of_tick h with ⟨rfl, rfl, _⟩ | hc
  · exact .inl ⟨rfl, rfl⟩
  · rw [hc.effects_eq h, Shows, frames_effectsSince]
    cases hd : m'.state.drawFlag with
    | true => exact .inr rfl
    | false => exact .inl ⟨rfl, (hc.path.screen_eq hd).2⟩

theorem effects_of_tick {n : Nat} (h : m.tick n = (m', .ok es)) :
    es = (frames es).map .render ++ schedulings es := by
  rcases ok_of_tick h with ⟨_, rfl, _⟩ | hc
  · rfl
  · rw [hc.effects_eq h]
    exact effectsSince_eq m' m.state.timers

theorem screen_keyDown (m : Machine) (key : Key) : (m.keyDown key).state.screen = m.state.screen := by
  obtain ⟨_, _, _, hk⟩ := m.keyDown_frame key
  rw [hk]

theorem shows_of_handle {e : Event} (h : m.handle e = (m', .ok es)) : m.Shows m' es := by
  cases e with
  | cpuTick => exact shows_of_tick h
  | timerTick t epoch =>
    obtain ⟨timers, ht⟩ := m.timerTick_frame t epoch
    cases h
    exact .inl ⟨m.frames_timerTick t epoch, congrArg (·.state.screen) ht⟩
  | keyDown key =>
    cases h
    exact .inl ⟨rfl, m.screen_keyDown _⟩
  | keyUp key =>
    cases h
    exact .inl ⟨rfl, rfl⟩
  | programLoaded program =>
    rcases m.load_cases program with hl | ⟨fault, hl⟩
    · cases hl.symm.trans h
      exact .inr rfl
    · cases hl.symm.trans h
  | programUnavailable reason => cases h

end Chip8.Machine
