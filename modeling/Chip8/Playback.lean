import Chip8.Launch

/-! # Playback

A run cycle by cycle. What has been put out is forgotten, so that a run may go on for as long as it
likes. -/
namespace Chip8

/-- Puts the output that follows behind the one from before. -/
def Report.followedBy (r next : Report) : Report :=
  { next with
    stdout := r.stdout ++ next.stdout
    stderr := r.stderr ++ next.stderr
    log := r.log.behind next.log }

/-- A session and the terminal that it plays on, as it was when all had been put out. -/
structure Playback where
  session : Session
  terminal : Terminal

namespace Playback

/-- What has not been put out yet. -/
def output (p : Playback) : Report := Launch.putOut p.terminal p.session

def flushed (p : Playback) : Playback :=
  ⟨p.session.flushed, (p.terminal.receiveAll p.session.calls).flushed⟩

/-- Takes a step of the session, which leads to a report if the session ends with it. -/
def advance (x : SessionM Unit) (p : Playback) : Except Report Playback :=
  match x p.session with
  | .ok _ s => .ok { p with session := s }
  | .error exit s => .error (Launch.conclude p.terminal ⟨s.close exit, exit⟩)

def start (o : Options) (key : ChaCha.CipherKey) (program : Except String (List UInt8))
    (log : Log) : Except Report Playback :=
  match Launch.boot o.configuration key (Launch.programEvent o.path program) log with
  | (s, .error fault) => .error (Launch.loadFailure fault s.log)
  | (s, .ok effects) => advance (Session.dispatch Terminal.frontend s.clock effects) ⟨s, {}⟩

/-- Puts out what there is, then takes the next cycle. -/
def next (o : Options) (p : Playback) : Except Report Playback :=
  p.flushed.advance (Session.cycle Terminal.frontend o.pace)

/-- All that is put out from now on, if the run ends within `n` cycles. -/
def outputs (o : Options) : Nat → Playback → Option Report
  | 0, _ => none
  | n + 1, p =>
    match p.next o with
    | .error r => some (p.output.followedBy r)
    | .ok q => (outputs o n q).map p.output.followedBy

def play (o : Options) (key : ChaCha.CipherKey) (program : Except String (List UInt8)) (log : Log) :
    Option Report :=
  match start o key program log with
  | .error r => some r
  | .ok p => p.outputs o (Session.longest o.pace)

def report (read : Reader) (key : ChaCha.CipherKey) (log : Log) (arguments : List String) :
    Option Report :=
  match CommandLine.parse arguments with
  | .error refusal => some (Launch.refuse log refusal)
  | .ok o => play o key (read o.path) log

end Playback
end Chip8
