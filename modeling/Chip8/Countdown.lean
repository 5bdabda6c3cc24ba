/-! # Countdowns

The delay and the sound timer each hold a byte that falls by one per period until it reaches zero.
A running countdown set to zero runs on until its next period. -/
namespace Chip8

structure Countdown where
  value : UInt8
  running : Bool
  deriving DecidableEq

inductive Period
  | idle
  | again
  | stopped
  deriving DecidableEq

namespace Countdown

def idle : Countdown := ⟨0, false⟩

instance : Inhabited Countdown := ⟨idle⟩

def set (c : Countdown) (value : UInt8) : Countdown := ⟨value, c.running || value != 0⟩

/-- Whether setting `value` makes a countdown that is not running run. -/
def starts (c : Countdown) (value : UInt8) : Bool := !c.running && value != 0

def step (c : Countdown) : Countdown × Period :=
  if !c.running then (c, .idle)
  else if c.value ≤ 1 then (.idle, .stopped)
  else (⟨c.value - 1, true⟩, .again)

end Countdown

inductive Timer
  | delay
  | sound
  deriving DecidableEq

namespace Timer

def all : List Timer := [delay, sound]

def name : Timer → String
  | delay => "Delay"
  | sound => "Sound"

end Timer

structure Timers where
  delay : Countdown
  sound : Countdown
  deriving DecidableEq

namespace Timers

def idle : Timers := ⟨.idle, .idle⟩

instance : Inhabited Timers := ⟨idle⟩

def get (ts : Timers) : Timer → Countdown
  | .delay => ts.delay
  | .sound => ts.sound

def set (ts : Timers) (t : Timer) (c : Countdown) : Timers :=
  match t with
  | .delay => { ts with delay := c }
  | .sound => { ts with sound := c }

theorem get_set (ts : Timers) (t u : Timer) (c : Countdown) :
    (ts.set t c).get u = if u = t then c else ts.get u := by
  cases t <;> cases u <;> rfl

end Timers

/-- Nanoseconds between two periods of a timer. -/
def timerPeriod : Nat := 16666667

end Chip8
