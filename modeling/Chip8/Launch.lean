import Chip8.CommandLine
import Chip8.FileSystem
import Chip8.Terminal

/-! # Launching

The whole run of the program from its arguments: the file at the given path goes into a new machine,
and a session with the terminal plays it. -/
namespace Chip8

structure Report where
  status : UInt32
  stdout : String
  /-- What the terminal has written to the standard error stream, on which the log is shown too. -/
  stderr : String
  /-- The mistake in the arguments that is complained about on the standard error stream. -/
  complaint : Option UsageError
  log : Log
  deriving DecidableEq

namespace Launch

/-- How a machine learns of the program file, or of the reason why it could not be read. -/
def programEvent (path : String) : Except String (List UInt8) → Event
  | .ok program => .programLoaded program
  | .error reason => .programUnavailable s!"{path}: {reason}"

/-- A session on a new machine that has been told of the program, with the machine's answer. -/
def boot (c : Configuration) (key : ChaCha.CipherKey) (e : Event) (log : Log) :
    Session × Response :=
  (Session.start (.new c key) log).handled e

def refuse (log : Log) : Refusal → Report
  | .help => ⟨0, CommandLine.helpText, "", none, log⟩
  | .version => ⟨0, CommandLine.versionText, "", none, log⟩
  | .usage error => ⟨2, "", "", some error, log⟩

def failWith (message : String) (r : Report) : Report :=
  { r with status := 1, log := r.log.add (.failed message) }

/-- The report of a session that has not begun to play. -/
def loadFailure (fault : Fault) (log : Log) : Report :=
  failWith fault.message ⟨0, "", "", none, log⟩

/-- What the terminal and the log put out for what a session has done. -/
def putOut (t : Terminal) (s : Session) : Report :=
  let t := t.receiveAll s.calls
  ⟨0, t.stdout, t.stderr, none, s.log.addAll t.notes.toList⟩

/-- What is put out by the end of a session. -/
def conclude (t : Terminal) (o : Outcome) : Report :=
  match o.exit.error? with
  | none => putOut t o.session
  | some message => failWith message (putOut t o.session)

def play (o : Options) (key : ChaCha.CipherKey) (program : Except String (List UInt8)) (log : Log) :
    Option Report :=
  match boot o.configuration key (programEvent o.path program) log with
  | (s, .error fault) => some (loadFailure fault s.log)
  | (s, .ok effects) => (s.run Terminal.frontend o.pace effects).map (conclude {})

/-- There is no report of a run that does not end. -/
def report (read : Reader) (key : ChaCha.CipherKey) (log : Log) (arguments : List String) :
    Option Report :=
  match CommandLine.parse arguments with
  | .error refusal => some (refuse log refusal)
  | .ok o => play o key (read o.path) log

end Launch
end Chip8
