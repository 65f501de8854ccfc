import ChipEight.Machine.Step
/-!
# Frames

The work between two timer ticks.

## Main definitions

- `Machine.tick` — both timers one tick further
- `Machine.attempt` — up to so many instructions, until one waits for a key
- `Machine.runFrame` — the instructions of a frame and one tick
- `Machine.takeFrame` — the picture, if it was drawn on since it was last taken

## Design notes

Keys change only between frames, so an instruction that waits for a key ends its
frame: the rest of the frame could do nothing but wait.
-/

namespace ChipEight.Machine

def tick (machine : Machine) : Machine :=
  { machine with core := machine.core.tick }

/-- Runs up to `count` instructions behind `attempted` others that reported
`events`, and ends early where the machine waits for a key or does not run. The
value counts the instructions that ran or failed. -/
def attempt : (count : Nat) → Machine → (attempted : Nat) → Array Event → Report Machine Nat
  | 0, machine, attempted, events => ⟨attempted, machine, events⟩
  | count + 1, machine, attempted, events =>
    let turn := machine.step
    match turn.value with
    | .executed _ => attempt count turn.after (attempted + 1) (events ++ turn.events)
    | .failed fault =>
      attempt count turn.after (attempted + 1)
        (events.push (.skipped turn.after.core.opcode fault))
    -- the word that waits is not counted
    | .awaitingKey => ⟨attempted, turn.after, events.push (.waitingForKey turn.after.core.pc)⟩
    | .stopped => ⟨attempted, turn.after, events⟩

/-- Runs the instructions of a frame and then ticks the timers, which stand still
while the machine does not run. The value is the number of instructions
attempted. -/
def runFrame (machine : Machine) : Report Machine Nat :=
  let batch := attempt machine.settings.instructionsPerFrame machine 0 #[]
  if batch.after.core.control = .running then { batch with after := batch.after.tick }
  else batch

/-- The picture, if it was drawn on since it was last taken. -/
def takeFrame (machine : Machine) : Report Machine (Option Screen) :=
  if machine.core.redraw then
    { value := some machine.core.screen
      after := { machine with core := { machine.core with redraw := false } } }
  else
    { value := none, after := machine }

end ChipEight.Machine
