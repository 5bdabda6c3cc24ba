import Chip8.Proofs.Reachability

/-! # Isolation of programs

Loading leaves nothing of what a machine did before but its random words and its epoch. Epochs are
only compared with each other, so two machines that load the same program run alike from there on,
if the ticks that one of them is given carry epochs shifted by the distance between the two. -/
namespace Chip8

/-- Epochs wrap around. -/
def Effect.shift (d : UInt32) : Effect → Effect
  | schedule t epoch after => schedule t (epoch + d) after
  | e => e

def Response.shift (d : UInt32) (r : Response) : Response := r.map (·.map (Effect.shift d))

def Event.shift (d : UInt32) : Event → Event
  | timerTick t epoch => timerTick t (epoch + d)
  | e => e

def Stimulus.shift (d : UInt32) : Stimulus → Stimulus
  | event e => event (e.shift d)
  | tick n => tick n

/-- The state in which a load leaves any machine. -/
def State.loaded (program : List UInt8) : State :=
  if program.length ≤ 3584 then
    { initial with
      memory := Memory.initial.store programStart program
      mode := .running }
  else initial

def Response.loaded (program : List UInt8) : Response :=
  if program.length ≤ 3584 then .ok [.render .blank]
  else .error (.programTooLarge program.length 3584)

namespace Machine

def shift (d : UInt32) (m : Machine) : Machine := { m with epoch := m.epoch + d }

variable (d : UInt32) (m : Machine)

theorem step_shift : (m.shift d).step = m.step.map (shift d) := by
  have hf : (m.shift d).fetched = m.fetched := rfl
  have hc : (m.shift d).configuration = m.configuration := rfl
  unfold step
  rw [hf, hc]
  cases Instruction.decode? m.fetched with
  | none => cases m.configuration.unknownOpcode <;> rfl
  | some i =>
    change (m.advanced.state.execute m.random i).map _ =
      ((m.advanced.state.execute m.random i).map _).map _
    cases m.advanced.state.execute m.random i <;> rfl

theorem batch_shift (n : Nat) :
    batch n (m.shift d) = ((batch n m).1.shift d, (batch n m).2) :=
  batch_map (shift d) (fun _ => rfl) (step_shift d) (fun _ => rfl) n m

theorem renderings_shift : (m.shift d).renderings = m.renderings.map (Effect.shift d) := by
  have h : (m.shift d).renderings = m.renderings := rfl
  rw [h, renderings]
  split <;> rfl

theorem effectsSince_shift (before : Timers) :
    (m.shift d).effectsSince before = (m.effectsSince before).map (Effect.shift d) := by
  have hs : (m.shift d).schedule = Effect.shift d ∘ m.schedule := rfl
  rw [effectsSince, effectsSince, List.map_append, List.map_map, ← hs, renderings_shift]
  rfl

theorem tick_shift (n : Nat) :
    (m.shift d).tick n = ((m.tick n).1.shift d, (m.tick n).2.shift d) := by
  by_cases hr : m.mode = .running
  · have hs : (m.shift d).mode = .running := hr
    have hb : batch n ((m.shift d).withDrawFlag false) = _ := batch_shift d (m.withDrawFlag false) n
    rw [tick_of_running hr, tick_of_running hs, hb]
    rcases batch n (m.withDrawFlag false) with ⟨m', none | fault⟩
    · exact congrArg (fun es => (m'.shift d, Except.ok es)) (effectsSince_shift d m' _)
    · rfl
  · have hs : (m.shift d).mode ≠ .running := hr
    rw [tick_of_not_running hr, tick_of_not_running hs]
    rfl

theorem timerTick_shift (t : Timer) (epoch : UInt32) :
    (m.shift d).timerTick t (epoch + d) =
      ((m.timerTick t epoch).1.shift d, (m.timerTick t epoch).2.map (Effect.shift d)) := by
  by_cases he : epoch = m.epoch
  · subst he
    have hr : (m.shift d).reschedules t = (m.reschedules t).map (Effect.shift d) := by
      change (if (m.timer t).step.1.running then [(m.schedule t).shift d] else []) = _
      rw [reschedules]
      split <;> rfl
    have hs : (m.shift d).sounds t = (m.sounds t).map (Effect.shift d) := by
      change m.sounds t = _
      rw [sounds]
      split <;> rfl
    have hes := (m.shift d).effects_timerTick t
    rw [hr, hs, ← List.map_append, ← effects_timerTick] at hes
    have hm := (m.shift d).machine_timerTick t
    rw [machine_timerTick]
    exact Prod.ext hm hes
  · have hne : epoch + d ≠ (m.shift d).epoch := fun h => he ((UInt32.add_left_inj d).mp h)
    rw [timerTick_of_stale he, timerTick_of_stale hne]
    rfl

theorem reset_shift : (m.shift d).reset = m.reset.shift d := by
  have he : m.epoch + d + 1 = m.epoch + 1 + d := by
    rw [UInt32.add_assoc, UInt32.add_comm d, UInt32.add_assoc]
  exact congrArg (Machine.mk m.configuration .initial m.random) he

theorem load_shift (program : List UInt8) :
    (m.shift d).load program = ((m.load program).1.shift d, (m.load program).2.shift d) := by
  have hr := m.reset_shift d
  by_cases h : program.length ≤ 3584
  · rw [load_of_le h, load_of_le h, booted, hr]
    rfl
  · have hlt := Nat.not_le.mp h
    rw [load_of_lt hlt, load_of_lt hlt, hr]
    rfl

theorem keyDown_shift (key : Key) : (m.shift d).keyDown key = (m.keyDown key).shift d := by
  obtain ⟨_, _, _, hk⟩ := m.keyDown_frame key
  rw [keyDown_congr m (m.shift d) rfl rfl rfl, hk]
  rfl

/-- Only the distance between epochs is seen. -/
theorem respond_shift (s : Stimulus) :
    (m.shift d).respond (s.shift d) = ((m.respond s).1.shift d, (m.respond s).2.shift d) := by
  cases s with
  | tick n => exact m.tick_shift d n
  | event e =>
    cases e with
    | cpuTick => exact m.tick_shift d _
    | timerTick t epoch => exact congrArg (Prod.map id Except.ok) (m.timerTick_shift d t epoch)
    | keyDown key => exact Prod.ext (m.keyDown_shift d _) rfl
    | keyUp key => rfl
    | programLoaded program => exact m.load_shift d program
    | programUnavailable reason => exact Prod.ext (m.reset_shift d) rfl

theorem after_shift (ss : List Stimulus) :
    (m.shift d).after (ss.map (.shift d)) = (m.after ss).shift d := by
  induction ss generalizing m with
  | nil => rfl
  | cons s ss ih =>
    rw [List.map_cons, after, after, respond_shift]
    exact ih _

theorem answers_shift (ss : List Stimulus) :
    (m.shift d).answers (ss.map (.shift d)) = (m.answers ss).map (.shift d) := by
  induction ss generalizing m with
  | nil => rfl
  | cons s ss ih =>
    rw [List.map_cons, answers, answers, respond_shift, List.map_cons, ih]

theorem eq_shift {a b : Machine} (configuration : b.configuration = a.configuration)
    (state : b.state = a.state) (random : b.random = a.random) :
    b = a.shift (b.epoch - a.epoch) := by
  have he : a.epoch + (b.epoch - a.epoch) = b.epoch := by
    rw [UInt32.add_comm, UInt32.sub_add_cancel]
  rw [shift, he, ← configuration, ← state, ← random]

theorem load_eq (program : List UInt8) :
    m.load program = ({ m.reset with state := .loaded program }, .loaded program) := by
  by_cases h : program.length ≤ 3584
  · rw [load_of_le h, State.loaded, if_pos h, Response.loaded, if_pos h, booted]
  · rw [load_of_lt (Nat.not_le.mp h), State.loaded, if_neg h, Response.loaded, if_neg h]
    rfl

/-- Two machines with the same configuration and random words that load the same program give the
same answer, are in the same new state and run on alike, `d` being the distance of their epochs. -/
theorem load_isolates {a b : Machine} (configuration : b.configuration = a.configuration)
    (random : b.random = a.random) (program : List UInt8) :
    let a₁ := (a.handle (.programLoaded program)).1
    let b₁ := (b.handle (.programLoaded program)).1
    let d := b₁.epoch - a₁.epoch
    (a.handle (.programLoaded program)).2 =
        (if program.length ≤ 3584 then .ok [.render .blank]
        else .error (.programTooLarge program.length 3584)) ∧
      (b.handle (.programLoaded program)).2 = (a.handle (.programLoaded program)).2 ∧
      a₁.state =
        (if program.length ≤ 3584 then
          { State.initial with
            memory := Memory.initial.store programStart program
            mode := .running }
        else .initial) ∧
      (program.length ≤ 3584 → ∀ addr : Address, a₁.state.memory.get addr =
        if addr.val < 512 then Memory.initial.get addr
        else (program[addr.val - 512]?).getD (Memory.initial.get addr)) ∧
      b₁.state = a₁.state ∧
      ∀ later : List Stimulus,
        b₁.answers (later.map (.shift d)) = (a₁.answers later).map (.shift d) ∧
          (b₁.after (later.map (.shift d))).state = (a₁.after later).state ∧
          (b₁.after (later.map (.shift d))).random = (a₁.after later).random := by
  intro a₁ b₁ d
  have ha : a.handle (.programLoaded program) = _ := a.load_eq program
  have hb : b.handle (.programLoaded program) = _ := b.load_eq program
  have ha₁ : a₁.state = .loaded program := congrArg (·.1.state) ha
  have hb₁ : b₁.state = a₁.state := (congrArg (·.1.state) hb).trans ha₁.symm
  have hd : b₁ = a₁.shift d := by
    refine eq_shift ?_ hb₁ ?_
    · exact (congrArg (·.1.configuration) hb).trans
        (configuration.trans (congrArg (·.1.configuration) ha).symm)
    · exact (congrArg (·.1.random) hb).trans (random.trans (congrArg (·.1.random) ha).symm)
  refine ⟨congrArg (·.2) ha, (congrArg (·.2) hb).trans (congrArg (·.2) ha).symm, ha₁, ?_, hb₁, ?_⟩
  · intro hle addr
    rw [ha₁, State.loaded, if_pos hle]
    exact Memory.get_store_programStart _ hle addr
  · intro later
    rw [hd, answers_shift, after_shift]
    exact ⟨rfl, rfl, rfl⟩

/-- The second machine has been refused a program and waits for a key in another one. -/
theorem load_isolates_waiting :
    let a := new {} 0
    let b := a.after [.event (.programUnavailable "gone"), .event (.programLoaded [0xF3, 0x0A]),
      .tick 1]
    let p : List UInt8 := [0x60, 0x05, 0xF0, 0x15]
    let a₁ := (a.handle (.programLoaded p)).1
    let b₁ := (b.handle (.programLoaded p)).1
    b.configuration = a.configuration ∧ b.random = a.random ∧ b.mode = .awaitingKey ∧
      b₁.epoch - a₁.epoch = 2 ∧ b₁.state = a₁.state ∧
      b₁.answers [.tick 2, .event (.timerTick .delay 3)] =
        (a₁.answers [.tick 2, .event (.timerTick .delay 1)]).map (.shift 2) := by
  intro a b p a₁ b₁
  have hb : b.configuration = a.configuration ∧ b.random = a.random ∧ b.mode = .awaitingKey ∧
      b₁.epoch - a₁.epoch = 2 := by
    decide +kernel
  obtain ⟨hc, hr, hm, hd⟩ := hb
  obtain ⟨_, _, _, _, hs, hl⟩ := load_isolates hc hr p
  have ha := (hl [.tick 2, .event (.timerTick .delay 1)]).1
  rw [hd] at ha
  exact ⟨hc, hr, hm, hd, hs, ha⟩

end Machine
end Chip8
