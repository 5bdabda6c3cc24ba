import Chip8.Configuration
import Chip8.Session

/-! # The command line

The arguments after the program's name, all of them texts in Unicode: one path, five options that
take a value, and a switch. An option is settled when the next argument shows that its value is
complete, so of two mistakes the one that is settled first is reported, while an argument that is
unknown on its face is reported at once. -/
namespace Chip8

inductive OptionName
  | hz
  | instructionsPerTick
  | unknownOpcode
  | seed
  | cycles
  deriving DecidableEq

namespace OptionName

def text : OptionName → String
  | hz => "hz"
  | instructionsPerTick => "instructions-per-tick"
  | unknownOpcode => "unknown-opcode"
  | seed => "seed"
  | cycles => "cycles"

def ofText? : String → Option OptionName
  | "hz" => some hz
  | "instructions-per-tick" => some instructionsPerTick
  | "unknown-opcode" => some unknownOpcode
  | "seed" => some seed
  | "cycles" => some cycles
  | _ => none

end OptionName

inductive UsageError
  | pathMissing
  | pathEmpty
  | valueMissing (name : OptionName)
  | valueRefused (name : OptionName) (value : String)
  | repeatedOption (name : OptionName)
  | repeatedSwitch
  | switchWithValue (argument : String)
  | unknownArgument (argument : String)
  deriving DecidableEq

namespace UsageError

def message : UsageError → String
  | pathMissing => "the path of the program is missing"
  | pathEmpty => "the path of the program is empty"
  | valueMissing name => s!"--{name.text} needs a value"
  | valueRefused name value => s!"--{name.text} does not take the value {value}"
  | repeatedOption name => s!"--{name.text} is given more than once"
  | repeatedSwitch => "--fast is given more than once"
  | switchWithValue argument => s!"{argument} has a value but takes none"
  | unknownArgument argument => s!"unexpected argument {argument}"

end UsageError

/-- Why a command line does not lead to a run. -/
inductive Refusal
  | help
  | version
  | usage (error : UsageError)
  deriving DecidableEq

/-- The options given so far. -/
structure Given where
  hz : Option UInt32 := none
  instructionsPerTick : Option UInt32 := none
  unknownOpcode : Option UnknownOpcodePolicy := none
  seed : Option UInt64 := none
  cycles : Option UInt64 := none
  fast : Bool := false
  path : Option String := none
  deriving DecidableEq

structure Options where
  path : String
  /-- Cycles per second. -/
  hz : UInt32
  configuration : Configuration
  cycles : Option UInt64
  /-- Whether cycles follow each other without a pause. -/
  fast : Bool
  deriving DecidableEq

namespace Options

/-- One second divided by the number of cycles in it, rounded down to nanoseconds. -/
def cycleTime (o : Options) : Nat := 1000000000 / o.hz.toNat

def pace (o : Options) : Pace := ⟨o.cycleTime, o.cycles.map (·.toNat)⟩

end Options

namespace CommandLine

def digitValue? (c : Char) : Option Nat :=
  if '0' ≤ c ∧ c ≤ '9' then some (c.toNat - 48) else none

/-- Decimal digits and nothing else, at least one of them. -/
def digits? : List Char → Option Nat
  | [] => none
  | cs => cs.foldl (fun n c => n.bind fun n => (digitValue? c).map (10 * n + ·)) (some 0)

def unsigned? : List Char → Option Nat
  | '+' :: cs => digits? cs
  | cs => digits? cs

/-- A minus sign is understood, and leaves no natural number but zero. -/
def signed? : List Char → Option Nat
  | '-' :: cs => (digits? cs).filter (· = 0)
  | cs => unsigned? cs

def word32? (least : Nat) (value : String) : Option UInt32 :=
  (signed? value.toList).bind fun n =>
    if least ≤ n ∧ n < UInt32.size then some (UInt32.ofNat n) else none

def word64? (value : String) : Option UInt64 :=
  (unsigned? value.toList).bind fun n => if n < UInt64.size then some (UInt64.ofNat n) else none

/-- An argument by its outward form. -/
inductive Token
  | escape
  | long (name : String) (value : Option String)
  | short (letter : Char)
  | plain
  deriving DecidableEq

def splitValue (cs : List Char) : String × Option String :=
  (String.ofList (cs.takeWhile (· != '=')),
    match cs.dropWhile (· != '=') with
    | [] => none
    | _ :: value => some (String.ofList value))

def Token.ofArgument (argument : String) : Token :=
  match argument.toList with
  | ['-', '-'] => .escape
  | '-' :: '-' :: cs => .long (splitValue cs).1 (splitValue cs).2
  | '-' :: c :: _ => .short c
  | _ => .plain

/-- The argument that is not settled yet. -/
inductive Pending
  | nothing
  | option (name : OptionName) (value : Option String)
  | path (path : String)
  deriving DecidableEq

def fail {α : Type} (e : UsageError) : Except Refusal α := .error (.usage e)

def accept {α : Type} (name : OptionName) (value : String) : Option α → Except Refusal (Option α)
  | some a => .ok (some a)
  | none => fail (.valueRefused name value)

def isGiven (g : Given) : OptionName → Bool
  | .hz => g.hz.isSome
  | .instructionsPerTick => g.instructionsPerTick.isSome
  | .unknownOpcode => g.unknownOpcode.isSome
  | .seed => g.seed.isSome
  | .cycles => g.cycles.isSome

def setOption (g : Given) (name : OptionName) (value : String) : Except Refusal Given :=
  if isGiven g name then fail (.repeatedOption name)
  else match name with
    | .hz => return { g with hz := ← accept name value (word32? 1 value) }
    | .instructionsPerTick =>
      return { g with instructionsPerTick := ← accept name value (word32? 0 value) }
    | .unknownOpcode =>
      let policy := (UnknownOpcodePolicy.ofText value).toOption
      return { g with unknownOpcode := ← accept name value policy }
    | .seed => return { g with seed := ← accept name value (word64? value) }
    | .cycles => return { g with cycles := ← accept name value (word64? value) }

def setFast (g : Given) : Except Refusal Given :=
  if g.fast then fail .repeatedSwitch else .ok { g with fast := true }

def settle (g : Given) : Pending → Except Refusal Given
  | .nothing => .ok g
  | .option name none => fail (.valueMissing name)
  | .option name (some value) => setOption g name value
  | .path path => if path.isEmpty then fail .pathEmpty else .ok { g with path := some path }

/-- Only one path is taken, whether or not it is settled. -/
def hasPath (g : Given) : Pending → Bool
  | .path _ => true
  | _ => g.path.isSome

def takePath (g : Given) (p : Pending) (argument : String) : Except Refusal (Given × Pending) :=
  if hasPath g p then fail (.unknownArgument argument)
  else return (← settle g p, .path argument)

def takeLong (g : Given) (p : Pending) (argument name : String) (value : Option String) :
    Except Refusal (Given × Pending) := do
  match name, value with
  | "fast", none => return (← setFast (← settle g p), .nothing)
  | "help", none => let _ ← settle g p; throw .help
  | "version", none => let _ ← settle g p; throw .version
  | "fast", some _ | "help", some _ | "version", some _ => fail (.switchWithValue argument)
  | _, _ =>
    match OptionName.ofText? name, value with
    | none, _ => fail (.unknownArgument argument)
    | some o, none => return (← settle g p, .option o none)
    | some o, some v => return (← setOption (← settle g p) o v, .nothing)

def takeShort (g : Given) (p : Pending) (argument : String) (letter : Char) :
    Except Refusal (Given × Pending) := do
  match letter with
  | 'h' => let _ ← settle g p; throw .help
  | 'V' => let _ ← settle g p; throw .version
  | _ => fail (.unknownArgument argument)

/-- After the escape every argument is a path. -/
def scan (g : Given) (p : Pending) (escaped : Bool) : List String → Except Refusal Given
  | [] => settle g p
  | argument :: rest => do
    if escaped then
      let (g, p) ← takePath g p argument
      scan g p true rest
    else match Token.ofArgument argument, p with
      | .escape, _ => scan g p true rest
      | .long name value, _ =>
        let (g, p) ← takeLong g p argument name value
        scan g p false rest
      | .short letter, _ =>
        let (g, p) ← takeShort g p argument letter
        scan g p false rest
      | .plain, .option name none => scan g (.option name (some argument)) false rest
      | .plain, _ =>
        let (g, p) ← takePath g p argument
        scan g p false rest

def defaultHz : UInt32 := 250

def configuration (g : Given) : Configuration :=
  let standard : Configuration := {}
  ⟨g.instructionsPerTick.getD standard.instructionsPerTick,
    g.unknownOpcode.getD standard.unknownOpcode, g.seed⟩

def complete (g : Given) : Except Refusal Options :=
  match g.path with
  | none => fail .pathMissing
  | some path => .ok ⟨path, g.hz.getD defaultHz, configuration g, g.cycles, g.fast⟩

def parse (arguments : List String) : Except Refusal Options := do
  complete (← scan {} .nothing false arguments)

def versionText : String := "octet 0.1.0\n"

def helpText : String :=
  "Runs a Chip-8 program\n" ++
  "\n" ++
  "Usage: octet [OPTIONS] <ROM>\n" ++
  "\n" ++
  "Arguments:\n" ++
  "  <ROM>\n" ++
  "          Path to the program to run\n" ++
  "\n" ++
  "Options:\n" ++
  "      --hz <HZ>\n" ++
  "          CPU ticks per second [default: 250]\n" ++
  "      --instructions-per-tick <INSTRUCTIONS_PER_TICK>\n" ++
  "          Instructions executed per CPU tick [default: 2]\n" ++
  "      --unknown-opcode <UNKNOWN_OPCODE>\n" ++
  "          What to do with words that aren't instructions (halt or skip) [default: halt]\n" ++
  "      --seed <SEED>\n" ++
  "          Seed for the random number instruction\n" ++
  "      --cycles <CYCLES>\n" ++
  "          Stop after this many CPU ticks\n" ++
  "      --fast\n" ++
  "          Run as fast as possible instead of at `--hz`\n" ++
  "  -h, --help\n" ++
  "          Print help\n" ++
  "  -V, --version\n" ++
  "          Print version\n"

end CommandLine
end Chip8
