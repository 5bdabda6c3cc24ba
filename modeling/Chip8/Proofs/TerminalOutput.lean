import Mathlib.Data.List.FinRange
import Chip8.Launch
import Chip8.Proofs.Narrations
import Chip8.Proofs.Tallies

/-! # Terminal output

What the terminal puts out for the calls that it gets: a bell for each beep, a count of the frames,
and the display as 32 lines of text. The log goes to the same stream as the bells. How a note is
shown there is left open, but for the bells, which are only those of its text. -/
namespace Chip8

namespace Note

end Note

namespace Report

end Report

namespace Terminal

def bells (n : Nat) : String := String.ofList (List.replicate n '\x07')

end Terminal
end Chip8
