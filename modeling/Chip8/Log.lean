import Chip8.Countdown
import Chip8.Fault
import Chip8.Hexadecimal
import Chip8.Nibble
import Chip8.PlainText

/-! # The log

What a machine and the session around it tell about their work, as notes of five levels of
severity. A log keeps the notes that its verbosity admits. -/
namespace Chip8

inductive Level
  | error
  | warn
  | info
  | debug
  | trace
  deriving DecidableEq

namespace Level

def rank : Level → Nat
  | error => 0
  | warn => 1
  | info => 2
  | debug => 3
  | trace => 4

def label : Level → String
  | error => "ERROR"
  | warn => "WARN"
  | info => "INFO"
  | debug => "DEBUG"
  | trace => "TRACE"

end Level

inductive Note
  | programLoaded (size : Nat)
  | programRejected (fault : Fault)
  | programUnavailable (reason : String)
  | keyCaptured (key : Key) (register : Register)
  | instructionFetched (opcode : UInt16) (v : List UInt8) (i pc : UInt16)
  | routineIgnored (address : UInt16)
  | opcodeSkipped (opcode address : UInt16)
  | halting (fault : Fault)
  | timerStarting (timer : Timer)
  | timerStopped (timer : Timer)
  | staleTickIgnored (timer : Timer) (epoch : UInt32)
  | cycleLimitReached (cycles : Nat)
  | interpreterHalted (fault : Fault)
  | ticksPending (count : Nat)
  | runRendered (frames soundPeriods : Nat)
  | failed (message : String)
  deriving DecidableEq

namespace Note

def level : Note → Level
  | programLoaded _ | halting _ | cycleLimitReached _ | runRendered .. => .info
  | programRejected _ | programUnavailable _ | keyCaptured .. | routineIgnored _ => .debug
  | timerStarting _ | timerStopped _ | ticksPending _ => .debug
  | instructionFetched .. | staleTickIgnored .. => .trace
  | opcodeSkipped .. => .warn
  | interpreterHalted _ | failed _ => .error

def hex (width : Nat) (w : UInt16) : String := Hexadecimal.padded width w.toNat

def registersText (v : List UInt8) : String :=
  "v[" ++ String.intercalate ", " (v.map fun b => Hexadecimal.padded 2 b.toNat) ++ "]"

def text : Note → String
  | programLoaded size => s!"loaded {size} byte program"
  | programRejected fault => s!"rejected program: {fault.message}"
  | programUnavailable reason => s!"program load failed: {reason}"
  | keyCaptured key x =>
    s!"captured key {Hexadecimal.padded 1 key.val} into v{Hexadecimal.padded 1 x.val}"
  | instructionFetched w v i pc => s!"{hex 4 w} {registersText v} i{hex 4 i} pc{hex 4 pc}"
  | routineIgnored a => s!"ignoring machine code routine at {Fault.addressText a}"
  | opcodeSkipped w a => s!"skipping unknown opcode {hex 4 w} at {hex 3 a}"
  | halting fault => s!"halting: {fault.message}"
  | timerStarting t => s!"starting {t.name} timer"
  | timerStopped t => s!"{t.name} timer stopped"
  | staleTickIgnored t epoch => s!"ignoring {t.name} timer tick from epoch {epoch.toNat}"
  | cycleLimitReached n => s!"stopping after {n} cycles"
  | interpreterHalted fault => s!"interpreter halted: {fault.message}"
  | ticksPending n => s!"{n} timer ticks still pending"
  | runRendered frames soundPeriods =>
    s!"rendered {frames} frames and {soundPeriods} sound periods"
  | failed message => message

def line (n : Note) : String := n.level.label ++ " " ++ n.text

/-- Every line of a text but the first moved in by four blanks. -/
def hanging (cs : List Char) : List Char :=
  cs.flatMap fun c => if c = '\n' then c :: List.replicate 4 ' ' else [c]

/-- A note as a log writes it out, on a stream that is given `shown s` for a text `s`. -/
def written (shown : String → String) (n : Note) : String :=
  shown (.ofList (hanging n.line.toList) ++ "\n")

/-- A line ends at a line feed, and a carriage return right before that belongs to the end. -/
def firstLine : List Char → List Char
  | [] => []
  | c :: cs =>
    if c = '\n' ∨ (c = '\r' ∧ cs.head? = some '\n') then [] else c :: firstLine cs

/-- The line on which a note opens where it is shown as plain text. -/
def heading (n : Note) : String := .ofList (firstLine (n.written PlainText.ofString).toList)

end Note

structure Log where
  /-- The least severe level that is kept; nothing is kept without one. -/
  verbosity : Option Level
  notes : Array Note
  deriving DecidableEq, Inhabited

namespace Log

def silent : Log := ⟨none, #[]⟩

def upTo (verbosity : Option Level) : Log := ⟨verbosity, #[]⟩

def admits (l : Log) (level : Level) : Bool :=
  match l.verbosity with
  | none => false
  | some v => level.rank ≤ v.rank

def add (l : Log) (n : Note) : Log :=
  if l.admits n.level then { l with notes := l.notes.push n } else l

def addAll (l : Log) (ns : List Note) : Log := ns.foldl add l

/-- The notes of `earlier` in front of those of `l`. -/
def behind (earlier l : Log) : Log := { l with notes := earlier.notes ++ l.notes }

def lines (l : Log) : List String := l.notes.toList.map Note.line

def headings (l : Log) : List String := l.notes.toList.map Note.heading

end Log
end Chip8
