import Chip8.Agenda
import Chip8.Frontend
import Chip8.Narration

/-! # Sessions

A session drives a machine that has just taken in a program. Every cycle polls for input, delivers
the timer ticks that are due on the session's clock, runs one batch of instructions and moves the
clock on by the cycle time. It ends at the cycle limit, when the frontend quits, or by a fault. -/
namespace Chip8

/-- One thing that happened in a session: a call to the frontend or an event handled by the
machine. -/
inductive Occurrence
  | call (c : Call)
  | event (e : Event)
  deriving DecidableEq

structure Session where
  machine : Machine
  agenda : Agenda
  /-- Nanoseconds since the session began. As with `PendingTick.due`, no sum is cut off at
  `longestDuration`. -/
  clock : Nat
  cycles : Nat
  polls : Nat
  renders : Nat
  trace : Array Occurrence
  log : Log
  deriving DecidableEq, Inhabited

/-- How long a cycle takes, in nanoseconds, and how many of them there may be. -/
structure Pace where
  /-- A command line asks for no more than a second, by `Options.cycleTime_le`. -/
  cycleTime : Nat
  cycleLimit : Option Nat
  deriving DecidableEq

inductive Exit
  | limit
  | quit
  | halted (fault : Fault)
  | renderFailed (reason : String)
  deriving DecidableEq

/-- The message of the error that a session ended with, if it did. -/
def Exit.error? : Exit → Option String
  | limit | quit => none
  | halted fault => some fault.message
  | renderFailed reason => some reason

abbrev SessionM := EStateM Exit Session

namespace Session

def start (machine : Machine) (log : Log) : Session := ⟨machine, .empty, 0, 0, 0, 0, #[], log⟩

/-- The calls to the frontend so far. -/
def calls (s : Session) : List Call :=
  s.trace.toList.filterMap fun
    | .call c => some c
    | .event _ => none

/-- Forgets what has happened and been noted so far. -/
def flushed (s : Session) : Session := { s with trace := #[], log := .upTo s.log.verbosity }

def called (c : Call) (s : Session) : Session := { s with trace := s.trace.push (.call c) }

def noted (n : Note) (s : Session) : Session := { s with log := s.log.add n }

/-- Lets the machine handle an event. -/
def handled (e : Event) : Session → Session × Response
  | ⟨machine, agenda, clock, cycles, polls, renders, trace, log⟩ =>
    let log := machine.narrate e log
    let answer := machine.handle e
    (⟨answer.1, agenda, clock, cycles, polls, renders, trace.push (.event e), log⟩, answer.2)

def rendered (frame : Screen) (s : Session) : Session :=
  { s with renders := s.renders + 1, trace := s.trace.push (.call (.render frame)) }

def scheduled (due : Nat) (t : Timer) (epoch : UInt32) (s : Session) : Session :=
  { s with agenda := s.agenda.schedule ⟨due, t, epoch⟩ }

def polled (s : Session) : Session :=
  { s with polls := s.polls + 1, trace := s.trace.push (.call .poll) }

def cycled (cycleTime : Nat) (s : Session) : Session :=
  { s with cycles := s.cycles + 1, clock := s.clock + cycleTime }

def perform (f : Frontend) (now : Nat) : Effect → SessionM Unit
  | .render frame => do
    modify (rendered frame)
    match f.renderFault (← get).renders with
    | none => pure ()
    | some reason => throw (.renderFailed reason)
  | .playSound => modify (called .beep)
  | .schedule t epoch after => modify (scheduled (now + after) t epoch)

def dispatch (f : Frontend) (now : Nat) : List Effect → SessionM Unit
  | [] => pure ()
  | e :: es => do
    perform f now e
    dispatch f now es

/-- A fault of the machine ends the session. -/
def deliver (e : Event) : SessionM (List Effect) := do
  match ← modifyGet fun s => let (s, response) := s.handled e; (response, s) with
  | .ok effects => pure effects
  | .error fault => throw (.halted fault)

/-- Delivers an event that happens now. -/
def answer (f : Frontend) (e : Event) : SessionM Unit := do
  let effects ← deliver e
  dispatch f (← get).clock effects

/-- What follows a `quit` is dropped. -/
def feed (f : Frontend) : List Input → SessionM Unit
  | [] => pure ()
  | .quit :: _ => throw .quit
  | .keyDown key :: inputs => do
    answer f (.keyDown key)
    feed f inputs
  | .keyUp key :: inputs => do
    answer f (.keyUp key)
    feed f inputs

def poll (f : Frontend) : SessionM Unit := do
  modify polled
  feed f (f.inputs (← get).polls)

/-- Delivers due timer ticks, at most `fuel` of them. What a tick schedules is measured from the
time it was due, so that timers do not drift. -/
def drain (f : Frontend) : Nat → SessionM Unit
  | 0 => pure ()
  | fuel + 1 => do
    match (← get).agenda.popDue? (← get).clock with
    | none => pure ()
    | some (tick, agenda) =>
      modify fun s => { s with agenda }
      let effects ← deliver (.timerTick tick.timer tick.epoch)
      dispatch f tick.due effects
      drain f fuel

/-- A bound on the timer ticks that can be due at once, since a tick is scheduled again only after
it has lowered the value of its timer. -/
def dueBound (s : Session) : Nat :=
  s.agenda.length + s.machine.state.timers.delay.value.toNat
    + s.machine.state.timers.sound.value.toNat

def drainDue (f : Frontend) : SessionM Unit := do drain f (← get).dueBound

def checkLimit (p : Pace) : SessionM Unit := do
  if p.cycleLimit.any (· ≤ (← get).cycles) then throw .limit

/-- The part of a cycle before its batch of instructions. -/
def prepare (f : Frontend) (p : Pace) : SessionM Unit := do
  checkLimit p
  poll f
  drainDue f

def compute (f : Frontend) (p : Pace) : SessionM Unit := do
  answer f .cpuTick
  modify (cycled p.cycleTime)

def cycle (f : Frontend) (p : Pace) : SessionM Unit := do
  prepare f p
  compute f p

def repeatCycle (f : Frontend) (p : Pace) : Nat → SessionM Unit
  | 0 => pure ()
  | n + 1 => do
    cycle f p
    repeatCycle f p n

def play (f : Frontend) (p : Pace) (cycles : Nat) (initial : List Effect) : SessionM Unit := do
  dispatch f (← get).clock initial
  repeatCycle f p cycles

def finished (s : Session) : Session :=
  (s.noted (.ticksPending s.agenda.length)).called (.finish s.machine.state.screen)

/-- What is still done after a session has ended. A failed rendering ends it at once. -/
def close (s : Session) : Exit → Session
  | .limit => (s.noted (.cycleLimitReached s.cycles)).finished
  | .quit => s.finished
  | .halted fault => (s.noted (.interpreterHalted fault)).finished
  | .renderFailed _ => s

end Session

structure Outcome where
  session : Session
  exit : Exit
  deriving DecidableEq

namespace Session

/-- Runs for at most `cycles` cycles, with no outcome if the session has not ended by then. -/
def runFor (f : Frontend) (p : Pace) (cycles : Nat) (initial : List Effect) (s : Session) :
    Option Outcome :=
  match play f p cycles initial s with
  | .ok _ _ => none
  | .error exit s => some ⟨s.close exit, exit⟩

/-- Enough cycles to reach the limit of a pace, and 64 bits' worth of them without a limit. -/
def longest (p : Pace) : Nat :=
  match p.cycleLimit with
  | some n => n + 1
  | none => UInt64.size

def run (f : Frontend) (p : Pace) (initial : List Effect) (s : Session) : Option Outcome :=
  runFor f p (longest p) initial s

end Session
end Chip8
