import Chip8.Playback

/-! # The program

Plays a program file in real time. A cycle that is ahead of the clock on the wall waits for it,
unless the run is to be as fast as possible. -/
namespace Chip8.Program

/-- What a stream is given of a text, by whether it is a terminal. -/
def shownOn (stream : IO.FS.Stream) : BaseIO (String → String) := do
  return if ← stream.isTty then id else PlainText.ofString

def put (r : Report) : IO Unit := do
  let shown ← shownOn (← IO.getStderr)
  IO.eprint r.stderr
  if let some error := r.complaint then
    IO.eprint (shown s!"error: {error.message}\n")
  for n in r.log.notes do
    IO.eprint (n.written shown)
  IO.print r.stdout
  (← IO.getStdout).flush

def finish (r : Report) : IO UInt32 := do
  put r
  return r.status

/-- Some system calls report the code of an error negated. -/
def errorCode (code : UInt32) : Nat := min code.toNat (UInt32.size - code.toNat)

def readFault? : IO.Error → Option ReadFault
  | .noFileOrDirectory _ code _ | .inappropriateType _ code _ =>
    ReadFault.ofCode? (errorCode code)
  | .invalidArgument _ code _ => ReadFault.ofCode? (errorCode code)
  | _ => none

def readProgram (path : String) : IO (Except String (List UInt8)) := do
  try
    return .ok (← IO.FS.readBinFile path).toList
  catch e =>
    match readFault? e with
    | some fault => return .error fault.reason
    | none => return .error s!"{e}"

def drawKey : IO ChaCha.CipherKey :=
  Vector.ofFnM fun _ => return UInt32.ofNat (← IO.rand 0 (UInt32.size - 1))

def pace (startedAt clock : Nat) : IO Unit := do
  let elapsed := (← IO.monoNanosNow) - startedAt
  if elapsed < clock then
    IO.sleep (UInt32.ofNat ((clock - elapsed) / 1000000))

partial def loop (o : Options) (startedAt : Nat) (p : Playback) : IO UInt32 := do
  put p.output
  unless o.fast do
    pace startedAt p.session.clock
  match p.next o with
  | .error r => finish r
  | .ok p => loop o startedAt p

def play (o : Options) (log : Log) : IO UInt32 := do
  let key ← drawKey
  let program ← readProgram o.path
  let startedAt ← IO.monoNanosNow
  match Playback.start o key program log with
  | .error r => finish r
  | .ok p => loop o startedAt p

def run (arguments : List String) : IO UInt32 := do
  let log := Log.upTo (some .info)
  match CommandLine.parse arguments with
  | .error refusal => finish (Launch.refuse log refusal)
  | .ok o => play o log

end Chip8.Program

def main (arguments : List String) : IO UInt32 := Chip8.Program.run arguments
