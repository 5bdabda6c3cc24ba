import Chip8.Configuration
import Chip8.Execution

/-! # The machine

A state with the stream of random words, which outlives the loaded program, and the epoch, which
counts the programs loaded. Instructions run in batches. A batch ends early when an instruction
starts to wait for a key, and a fault halts the machine. -/
namespace Chip8

structure Machine where
  configuration : Configuration
  state : State
  random : Generator
  epoch : UInt32
  deriving DecidableEq, Inhabited

/-- What the machine asks of the world around it. -/
inductive Effect
  | render (frame : Screen)
  | playSound
  | schedule (timer : Timer) (epoch : UInt32) (after : Nat)
  deriving DecidableEq

abbrev Response := Except Fault (List Effect)

namespace Machine

/-- The random words come from `key` when the configuration has no seed. -/
def new (configuration : Configuration) (key : ChaCha.CipherKey) : Machine :=
  ⟨configuration, .initial, .new configuration.seed key, 0⟩

def mode (m : Machine) : Mode := m.state.mode

def pc (m : Machine) : UInt16 := m.state.registers.pc

/-- The word at the program counter. -/
def fetched (m : Machine) : Opcode := m.state.memory.readWord m.pc

def advanced (m : Machine) : Machine :=
  { m with state := { m.state with registers := m.state.registers.advance } }

def withMode (m : Machine) (mode : Mode) : Machine :=
  { m with state := { m.state with mode } }

def withDrawFlag (m : Machine) (drawFlag : Bool) : Machine :=
  { m with state := { m.state with drawFlag } }

def execute (m : Machine) (i : Instruction) : Except Fault Machine :=
  (m.state.execute m.random i).map fun (state, random) => { m with state, random }

/-- Fetches the word at the program counter, moves past it and executes it. -/
def step (m : Machine) : Except Fault Machine :=
  match Instruction.decode? m.fetched with
  | some i => m.advanced.execute i
  | none =>
    match m.configuration.unknownOpcode with
    | .skip => .ok m.advanced
    | .halt => .error (.unknownOpcode m.fetched m.pc)

/-- What remains of the machine when its next instruction fails. -/
def failed (m : Machine) : Machine := m.advanced.withMode .halted

/-- Runs at most `n` instructions, and tells the fault that ended the batch. -/
def batch : Nat → Machine → Machine × Option Fault
  | 0, m => (m, none)
  | n + 1, m =>
    if m.mode = .running then
      match m.step with
      | .ok m' => batch n m'
      | .error fault => (m.failed, some fault)
    else (m, none)

def schedule (m : Machine) (t : Timer) : Effect := .schedule t m.epoch timerPeriod

def renderings (m : Machine) : List Effect :=
  if m.state.drawFlag then [.render m.state.screen] else []

/-- The timers that run now and did not run before. -/
def startedTimers (m : Machine) (before : Timers) : List Timer :=
  Timer.all.filter fun t => !(before.get t).running && (m.state.timers.get t).running

/-- A batch with its effects: the new screen if it was drawn on, then the first period of every
timer it has started. The effects of a batch that fails are lost. -/
def tick (count : Nat) (m : Machine) : Machine × Response :=
  if m.mode = .running then
    match batch count (m.withDrawFlag false) with
    | (m', some fault) => (m', .error fault)
    | (m', none) =>
      (m', .ok (m'.renderings ++ (m'.startedTimers m.state.timers).map m'.schedule))
  else (m, .ok [])

/-- Ticks that were scheduled for an earlier program are ignored. A running sound timer that is not
yet at zero sounds for the period that ends. -/
def timerTick (t : Timer) (epoch : UInt32) (m : Machine) : Machine × List Effect :=
  if epoch = m.epoch then
    let c := m.state.timers.get t
    let stepped := c.step
    let sounds := if t = .sound ∧ c.running ∧ c.value ≠ 0 then [.playSound] else []
    let again := if stepped.2 = .again then [m.schedule t] else []
    ({ m with state := { m.state with timers := m.state.timers.set t stepped.1 } }, sounds ++ again)
  else (m, [])

/-- A machine that waits for a key takes the pressed one into the waiting register and runs on. -/
def keyDown (key : Key) (m : Machine) : Machine :=
  match m.state.keypad.press key with
  | (keypad, none) => { m with state := { m.state with keypad } }
  | (keypad, some x) =>
    let mode := if m.mode = .awaitingKey then .running else m.mode
    { m with state := { m.state.setRegister x key.toByte with keypad, mode } }

def keyUp (key : Key) (m : Machine) : Machine :=
  { m with state := { m.state with keypad := m.state.keypad.release key } }

/-- A press changes nothing but the keypad, the registers and the mode. -/
theorem keyDown_frame (m : Machine) (key : Key) :
    ∃ keypad registers mode,
      m.keyDown key = { m with state := { m.state with keypad, registers, mode } } := by
  unfold keyDown
  split <;> exact ⟨_, _, _, rfl⟩

/-- Nor does what it makes of them depend on anything else. -/
theorem keyDown_congr (m m' : Machine) (keypad : m'.state.keypad = m.state.keypad)
    (registers : m'.state.registers = m.state.registers) (mode : m'.state.mode = m.state.mode)
    (key : Key) :
    m'.keyDown key = { m' with state := { m'.state with
      keypad := (m.keyDown key).state.keypad
      registers := (m.keyDown key).state.registers
      mode := (m.keyDown key).state.mode } } := by
  unfold keyDown State.setRegister Machine.mode
  rw [keypad, registers, mode]
  rcases m.state.keypad.press key with ⟨keypad, none | x⟩
  · simp only [registers, mode]
  · rfl

/-- Forgets the loaded program. Timer ticks scheduled before are stale from now on. -/
def reset (m : Machine) : Machine := { m with state := .initial, epoch := m.epoch + 1 }

/-- A program that is refused leaves the machine reset and stopped. -/
def load (program : List UInt8) (m : Machine) : Machine × Response :=
  match m.reset.state.memory.load programStart program with
  | .ok memory =>
    ({ m.reset with state := { m.reset.state with memory, mode := .running } },
      .ok [.render m.reset.state.screen])
  | .error fault => (m.reset, .error fault)

def loadFailed (reason : String) (m : Machine) : Machine × Response :=
  (m.reset, .error (.programUnavailable reason))

end Machine

inductive Event
  | cpuTick
  | timerTick (timer : Timer) (epoch : UInt32)
  | keyDown (key : UInt8)
  | keyUp (key : UInt8)
  | programLoaded (program : List UInt8)
  | programUnavailable (reason : String)
  deriving DecidableEq

def Machine.handle (m : Machine) : Event → Machine × Response
  | .cpuTick => m.tick m.configuration.instructionsPerTick.toNat
  | .timerTick t epoch => (m.timerTick t epoch).map id .ok
  | .keyDown key => (m.keyDown (.ofByte key), .ok [])
  | .keyUp key => (m.keyUp (.ofByte key), .ok [])
  | .programLoaded program => m.load program
  | .programUnavailable reason => m.loadFailed reason

end Chip8
