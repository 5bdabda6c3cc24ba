import Chip8.Proofs.Loading
import Chip8.Proofs.TimerTicks

/-! # Reachability

A driver lets a machine handle an event or run a tick of any size. The reachable machines are those
that a new machine becomes by any number of such stimuli, in any order. -/
namespace Chip8

inductive Stimulus
  | event (e : Event)
  | tick (count : Nat)
  deriving DecidableEq

namespace Machine

def respond (m : Machine) : Stimulus → Machine × Response
  | .event e => m.handle e
  | .tick n => m.tick n

/-- The machine after all of the stimuli, one after the other. -/
def after (m : Machine) : List Stimulus → Machine
  | [] => m
  | s :: ss => (m.respond s).1.after ss

/-- What the machine answers to the stimuli, one after the other. -/
def answers (m : Machine) : List Stimulus → List Response
  | [] => []
  | s :: ss => (m.respond s).2 :: (m.respond s).1.answers ss

inductive Reachable : Machine → Prop
  | new (c : Configuration) (key : ChaCha.CipherKey) : Reachable (.new c key)
  | respond {m : Machine} (s : Stimulus) (prior : Reachable m) : Reachable (m.respond s).1

/-- The words that a machine executes when it responds to a stimulus. -/
def executed (m : Machine) : Stimulus → List Opcode
  | .event .cpuTick => m.ticked m.configuration.instructionsPerTick.toNat
  | .tick n => m.ticked n
  | _ => []

def executedAfter (m : Machine) : List Stimulus → List Opcode
  | [] => []
  | s :: ss => m.executed s ++ (m.respond s).1.executedAfter ss

/-- Without instructions there is neither another configuration nor another random word. -/
theorem random_of_handle {e : Event} (h : e ≠ .cpuTick) (m : Machine) :
    (m.handle e).1.configuration = m.configuration ∧ (m.handle e).1.random = m.random := by
  cases e with
  | cpuTick => exact absurd rfl h
  | timerTick t epoch =>
    obtain ⟨timers, ht⟩ := m.timerTick_frame t epoch
    exact ⟨congrArg (·.configuration) ht, congrArg (·.random) ht⟩
  | keyDown key =>
    obtain ⟨_, _, _, hk⟩ := m.keyDown_frame (.ofByte key)
    exact ⟨congrArg (·.configuration) hk, congrArg (·.random) hk⟩
  | keyUp key | programUnavailable reason => exact ⟨rfl, rfl⟩
  | programLoaded program =>
    rcases load_cases m program with hl | ⟨fault, hl⟩ <;>
      exact ⟨congrArg (·.1.configuration) hl, congrArg (·.1.random) hl⟩

theorem configuration_of_respond (m : Machine) (s : Stimulus) :
    (m.respond s).1.configuration = m.configuration := by
  cases s with
  | tick n => exact configuration_of_tick n m
  | event e =>
    by_cases he : e = .cpuTick
    · subst he
      exact configuration_of_tick _ m
    · exact (random_of_handle he m).1

end Machine
end Chip8
