import Chip8.Log
import Chip8.Machine

/-! # Narration

The notes that a machine's work gives rise to, told from the machine as it is before the work. The
machine itself keeps no log, so what it does cannot depend on how much is logged. -/
namespace Chip8.Machine

def narrateStep (m : Machine) (log : Log) : Log :=
  let r := m.state.registers
  let log := log.add (.instructionFetched m.fetched r.v.toList r.i r.pc)
  match Instruction.decode? m.fetched, m.configuration.unknownOpcode with
  | some (.routine a), _ => log.add (.routineIgnored a.toWord)
  | none, .skip => log.add (.opcodeSkipped m.fetched m.pc)
  | _, _ => log

/-- The steps of a batch and either the fault that ends it or the timers that run after it and did
not run in `before`. -/
def narrateBatch (before : Timers) : Nat → Machine → Log → Log
  | 0, m, log => log.addAll ((m.startedTimers before).map .timerStarting)
  | n + 1, m, log =>
    if m.mode = .running then
      match m.step with
      | .ok m' => narrateBatch before n m' (m.narrateStep log)
      | .error fault => (m.narrateStep log).add (.halting fault)
    else log.addAll ((m.startedTimers before).map .timerStarting)

def narrateTick (count : Nat) (m : Machine) (log : Log) : Log :=
  if m.mode = .running then narrateBatch m.state.timers count m log else log

def narrateTimerTick (t : Timer) (epoch : UInt32) (m : Machine) (log : Log) : Log :=
  if epoch = m.epoch then
    if (m.state.timers.get t).step.2 = .stopped then log.add (.timerStopped t) else log
  else log.add (.staleTickIgnored t epoch)

def narrateKeyDown (key : Key) (m : Machine) (log : Log) : Log :=
  match m.state.keypad.waiting with
  | some x => log.add (.keyCaptured key x)
  | none => log

def narrateLoad (program : List UInt8) (log : Log) : Log :=
  match State.initial.memory.load programStart program with
  | .ok _ => log.add (.programLoaded program.length)
  | .error fault => log.add (.programRejected fault)

def narrate (m : Machine) (e : Event) (log : Log) : Log :=
  if log.verbosity.isNone then log
  else match e with
    | .cpuTick => m.narrateTick m.configuration.instructionsPerTick.toNat log
    | .timerTick t epoch => m.narrateTimerTick t epoch log
    | .keyDown key => m.narrateKeyDown (.ofByte key) log
    | .keyUp _ => log
    | .programLoaded program => narrateLoad program log
    | .programUnavailable reason => log.add (.programUnavailable reason)

end Chip8.Machine
