import ChipEight.Proofs.Machine.History
import ChipEight.Proofs.Machine.Run
/-!
# Acts of the host

What the commands that take no step do to a machine. Each of them changes one part of the
core, except for a reset, and none of them changes settings or random words.

## Main definitions

- `Machine.HostAct` — what each of these commands leaves

## Main statements

- `Machine.hostAct_perform` — a command that takes no step leaves that
-/

namespace ChipEight.Machine

/-- What a command that takes no step leaves of a machine. -/
inductive HostAct (machine : Machine) : Command → Machine → Prop where
  | load (program : List Byte) (memory : Memory) :
      HostAct machine (.load program) { machine with core := { machine.core with memory } }
  | loadFrom (source : List Read) (memory : Memory) :
      HostAct machine (.loadFrom source) { machine with core := { machine.core with memory } }
  | tick : HostAct machine .tick machine.tick
  | press (key : Byte) :
      HostAct machine (.press key) (machine.setKeys (machine.core.keypad.press key))
  | release (key : Byte) :
      HostAct machine (.release key) (machine.setKeys (machine.core.keypad.release key))
  | setKeys (keypad : Keypad) : HostAct machine (.setKeys keypad) (machine.setKeys keypad)
  | control (intent : Intent) (no_reset : intent ≠ .reset) :
      HostAct machine (.apply intent) { machine with core :=
        { machine.core with control := machine.core.control.after intent } }
  | applyReset :
      HostAct machine (.apply .reset) { machine with core := machine.core.reset }
  | reset : HostAct machine .reset { machine with core := machine.core.reset }
  | takeFrame :
      HostAct machine .takeFrame { machine with core := { machine.core with redraw := false } }

theorem hostAct_perform {command : Command} (no_step : command.takesSteps = false)
    (machine : Machine) : HostAct machine command (machine.perform command).after := by
  cases command with
  | load program =>
    obtain ⟨memory, after⟩ := machine.after_perform_load program
    rw [after]
    exact .load program memory
  | loadFrom source =>
    obtain ⟨memory, after⟩ := machine.after_perform_loadFrom source
    rw [after]
    exact .loadFrom source memory
  | step => cases no_step
  | runFrame => cases no_step
  | tick => exact .tick
  | press key => exact .press key
  | release key => exact .release key
  | setKeys keypad => exact .setKeys keypad
  | apply intent =>
    by_cases resets : intent = .reset
    · rw [resets]
      exact .applyReset
    · rw [after_perform_apply resets]
      exact .control intent resets
  | reset => exact .reset
  | takeFrame =>
    rw [after_perform_takeFrame]
    exact .takeFrame

end ChipEight.Machine
