import Chip8.Screen

/-! # Frontends

What a session needs from the world around it: input when it polls for some, and a place to show
frames, which can fail. Polls and renderings are numbered from one. -/
namespace Chip8

inductive Input
  | keyDown (key : UInt8)
  | keyUp (key : UInt8)
  | quit
  deriving DecidableEq

structure Frontend where
  inputs : Nat → List Input
  /-- The reason why a rendering fails, if it does. -/
  renderFault : Nat → Option String

/-- What a session does to its frontend. -/
inductive Call
  | render (frame : Screen)
  | beep
  | poll
  | finish (frame : Screen)
  deriving DecidableEq

end Chip8
