import ChipEight.Core.Arithmetic
/-!
# Timers and keys

The instructions that read and set the devices around the core.

## Main definitions

- `Core.setDelay`, `Core.setSound` — a timer set from a register
- `Core.holdsKey` — whether the key that a register names is held
- `Core.receiveKey?` — a key taken into a register, if one is held
-/

namespace ChipEight.Core

def setDelay (x : Register) (core : Core) : Core :=
  { core with delay := core.get x }.next

def setSound (x : Register) (core : Core) : Core :=
  { core with sound := core.get x }.next

/-- Whether the key `Vx` is held; a value above `F` names no key. -/
def holdsKey (x : Register) (core : Core) : Bool :=
  core.keypad.holds (core.get x)

/-- Sets `Vx` to the lowest key that is held, or waits for one. -/
def receiveKey? (x : Register) (core : Core) : Option Core :=
  core.keypad.first?.map fun key => core.assign x (UInt8.ofNat key.val)

end ChipEight.Core
