import ChipEight.Dialect
/-!
# Settings

What a machine is built with.

## Main definitions

- `Settings` — dialect, speed and seed
- `Settings.timerRate`, `Settings.frameNanoseconds` — the pace of frames
-/

namespace ChipEight

def Settings.timerRate : Nat := 60

def Settings.frameNanoseconds : Nat := 1000000000 / timerRate

def Settings.defaultSpeed : Nat := 8

structure Settings where
  dialect : Dialect := .modern
  instructionsPerFrame : Nat := Settings.defaultSpeed
  /-- The seed of the random bytes; without one they come from outside. -/
  seed : Option UInt64 := none
  deriving DecidableEq, Repr

end ChipEight
