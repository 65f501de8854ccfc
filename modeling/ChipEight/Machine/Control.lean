import ChipEight.Machine.Basic
/-!
# Control

How whoever owns the machine pauses, halts and resets it.

## Main definitions

- `Intent` — what is asked of the machine
- `Control.after` — the control state that an intent leads to
- `Machine.apply`, `Machine.reset` — the machine after an intent
-/

namespace ChipEight

inductive Intent where
  | pause
  | resume
  | togglePause
  | halt
  | reset
  deriving DecidableEq, Repr

/-- The control state that an intent leads to. A halted machine answers to nothing
but a reset, which always leaves it running. -/
def Control.after : Control → Intent → Control
  | _, .reset => .running
  | .halted, _ => .halted
  | _, .halt => .halted
  | .running, .pause => .paused
  | .running, .togglePause => .paused
  | .running, .resume => .running
  | .paused, .resume => .running
  | .paused, .togglePause => .running
  | .paused, .pause => .paused

namespace Machine

/-- The machine reset. The program stays in memory, the timers and the random
words carry on. -/
def reset (machine : Machine) : Report Machine Unit where
  value := ()
  after := { machine with core := machine.core.reset }
  events := #[.reset]

/-- The machine in a control state; the change is reported, if it is one. -/
def setControl (machine : Machine) (control : Control) : Report Machine Unit :=
  if control = machine.core.control then
    { value := (), after := machine }
  else
    { value := ()
      after := { machine with core := { machine.core with control } }
      events := #[.controlChanged machine.core.control control] }

def apply (machine : Machine) (intent : Intent) : Report Machine Unit :=
  if intent = .reset then machine.reset
  else machine.setControl (machine.core.control.after intent)

end Machine

end ChipEight
