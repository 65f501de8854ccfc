import ChipEight.Machine.Control
import ChipEight.Machine.Frame
import ChipEight.Machine.Source
/-!
# Commands

Everything that can be done to a machine, as data, so that a run of the machine
is a list.

## Main definitions

- `Command`, `Response` — what is done and what it answers
- `Machine.perform` — one command
- `Machine.performAll` — a run of commands
-/

namespace ChipEight

inductive Command where
  | load (program : List Byte)
  | loadFrom (source : List Read)
  | step
  | runFrame
  | tick
  | press (key : Byte)
  | release (key : Byte)
  | setKeys (keypad : Keypad)
  | apply (intent : Intent)
  | reset
  | takeFrame
  deriving DecidableEq, Repr

inductive Response where
  | done
  | refused (error : LoadError)
  | stepped (result : StepResult)
  | attempted (count : Nat)
  | frame (screen : Option Screen)
  deriving DecidableEq, Repr

namespace Machine

def setKeys (machine : Machine) (keypad : Keypad) : Machine :=
  { machine with core := { machine.core with keypad } }

/-- The response to a load; a refused one leaves the machine as it was. -/
def respond (machine : Machine) :
    Except LoadError (Report Machine Unit) → Report Machine Response
  | .ok loaded => { loaded with value := .done }
  | .error error => { value := .refused error, after := machine }

/-- The response to something that cannot fail and reports nothing. -/
def quietly (after : Machine) : Report Machine Response where
  value := .done
  after := after

/-- One command. -/
def perform (machine : Machine) : Command → Report Machine Response
  | .load program => machine.respond (machine.load program)
  | .loadFrom source => machine.respond (machine.loadFrom source)
  | .step => let turn := machine.step; { turn with value := .stepped turn.value }
  | .runFrame => let frame := machine.runFrame; { frame with value := .attempted frame.value }
  | .tick => quietly machine.tick
  | .press key => quietly (machine.setKeys (machine.core.keypad.press key))
  | .release key => quietly (machine.setKeys (machine.core.keypad.release key))
  | .setKeys keypad => quietly (machine.setKeys keypad)
  | .apply intent => { machine.apply intent with value := .done }
  | .reset => { machine.reset with value := .done }
  | .takeFrame => let taken := machine.takeFrame; { taken with value := .frame taken.value }

/-- A run of commands: the response to each, the machine behind the last, and all
that was reported. -/
def performAll (machine : Machine) : List Command → Report Machine (List Response)
  | [] => { value := [], after := machine }
  | command :: rest =>
    let first := machine.perform command
    let others := first.after.performAll rest
    { value := first.value :: others.value
      after := others.after
      events := first.events ++ others.events }

@[simp] theorem performAll_nil (machine : Machine) :
    machine.performAll [] = { value := [], after := machine } := rfl

theorem after_performAll_append (machine : Machine) (first others : List Command) :
    (machine.performAll (first ++ others)).after
      = ((machine.performAll first).after.performAll others).after := by
  induction first generalizing machine with
  | nil => rfl
  | cons command rest ih => exact ih _

end Machine

end ChipEight
