/-! # Configuration

How many instructions make a batch, what happens at a word that is no instruction, and the seed of
the random words. -/
namespace Chip8

inductive UnknownOpcodePolicy
  | halt
  | skip
  deriving DecidableEq

namespace UnknownOpcodePolicy

def text : UnknownOpcodePolicy → String
  | halt => "halt"
  | skip => "skip"

def lower (c : Char) : Char := if 'A' ≤ c ∧ c ≤ 'Z' then Char.ofNat (c.toNat + 32) else c

/-- Letters outside ASCII keep their case. -/
def lowered (s : String) : String := String.ofList (s.toList.map lower)

/-- Refuses a text with the reason why. -/
def ofText (s : String) : Except String UnknownOpcodePolicy :=
  if lowered s = "halt" then .ok halt
  else if lowered s = "skip" then .ok skip
  else .error s!"expected `halt` or `skip` but got `{lowered s}`"

end UnknownOpcodePolicy

structure Configuration where
  instructionsPerTick : UInt32 := 2
  unknownOpcode : UnknownOpcodePolicy := .halt
  /-- Without a seed the random words are not repeatable. -/
  seed : Option UInt64 := none
  deriving DecidableEq, Inhabited

end Chip8
