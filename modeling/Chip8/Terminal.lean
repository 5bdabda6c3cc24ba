import Chip8.Frontend
import Chip8.Log

/-! # The terminal

A frontend without input. It rings the bell for every sound period and prints nothing but the frame
that it is handed at the end, with a note of how much it has been given. What it puts out gathers in
it until it is flushed. -/
namespace Chip8

structure Terminal where
  frames : Nat := 0
  soundPeriods : Nat := 0
  stdout : String := ""
  stderr : String := ""
  notes : Array Note := #[]
  deriving DecidableEq, Inhabited

namespace Terminal

def frontend : Frontend := ⟨fun _ => [], fun _ => none⟩

def bell : String := "\x07"

def pixelChar (lit : Bool) : Char := if lit then '█' else ' '

def rowText (row : List Bool) : String := String.ofList (row.map pixelChar)

/-- One line of text per row, the top row first. -/
def frameText (frame : Screen) : String := String.intercalate "\n" (frame.toRows.map rowText)

def receive (t : Terminal) : Call → Terminal
  | .render _ => { t with frames := t.frames + 1 }
  | .beep => { t with soundPeriods := t.soundPeriods + 1, stderr := t.stderr ++ bell }
  | .poll => t
  | .finish frame =>
    { t with
      stdout := t.stdout ++ frameText frame ++ "\n"
      notes := t.notes.push (.runRendered t.frames t.soundPeriods) }

def receiveAll (t : Terminal) (calls : List Call) : Terminal := calls.foldl receive t

def flushed (t : Terminal) : Terminal := { t with stdout := "", stderr := "", notes := #[] }

end Terminal
end Chip8
