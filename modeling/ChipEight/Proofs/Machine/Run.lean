import ChipEight.Machine.Command
import ChipEight.Proofs.Machine.Batch
/-!
# Runs

What a run of commands preserves, from what one step and each act of the host
preserve.

## Main definitions

- `Machine.switchedOn` — a machine at the beginning of a run
- `Machine.Invariant` — the properties that a step and every act of the host preserve

## Main statements

- `Machine.after_perform_load`, `Machine.after_perform_loadFrom`,
  `Machine.after_perform_apply`, `Machine.after_perform_takeFrame` — what acts of the host
  change
- `Machine.Invariant.performAll` — a run preserves them
- `Machine.settings_performAll` — no run changes what the machine was built with
-/

namespace ChipEight.Machine

/-- A machine that was just switched on, with any random words. -/
def switchedOn (settings : Settings) (random : WordStream) : Machine where
  core := Core.fresh
  settings := settings
  random := random

example (settings : Settings) (entropy : ChaCha.Key) :
    start settings entropy = switchedOn settings (start settings entropy).random := rfl

theorem perform_load_cases (machine : Machine) (program : List Byte) :
    (machine.perform (.load program)).after = machine ∨
      ∃ memory, machine.core.memory.load program = .ok memory ∧
        (machine.perform (.load program)).after
          = { machine with core := { machine.core with memory } } := by
  simp only [perform, load, Core.load]
  cases machine.core.memory.load program with
  | error error => exact Or.inl rfl
  | ok memory => exact Or.inr ⟨memory, rfl, rfl⟩

/-- A load, from bytes or from a source, changes memory or nothing. -/
theorem perform_loadFrom_cases (machine : Machine) (source : List Read) :
    (machine.perform (.loadFrom source)).after = machine ∨
      ∃ program, Source.contents source = .ok program ∧
        (machine.perform (.loadFrom source)).after
          = (machine.perform (.load program)).after := by
  simp only [perform, loadFrom]
  cases Source.contents source with
  | error error => exact Or.inl rfl
  | ok program => exact Or.inr ⟨program, rfl, rfl⟩

/-- All that a load can change is memory. -/
theorem after_perform_load (machine : Machine) (program : List Byte) :
    ∃ memory, (machine.perform (.load program)).after
      = { machine with core := { machine.core with memory } } := by
  rcases perform_load_cases machine program with same | ⟨memory, _, after⟩
  · exact ⟨machine.core.memory, same⟩
  · exact ⟨memory, after⟩

theorem after_perform_loadFrom (machine : Machine) (source : List Read) :
    ∃ memory, (machine.perform (.loadFrom source)).after
      = { machine with core := { machine.core with memory } } := by
  rcases perform_loadFrom_cases machine source with same | ⟨program, _, after⟩
  · exact ⟨machine.core.memory, same⟩
  · rw [after]
    exact after_perform_load machine program

/-- Every intent but a reset changes the control state or nothing. -/
theorem after_perform_apply {intent : Intent} (no_reset : intent ≠ .reset) (machine : Machine) :
    (machine.perform (.apply intent)).after
      = { machine with core :=
          { machine.core with control := machine.core.control.after intent } } := by
  simp only [perform, apply, if_neg no_reset, setControl]
  split
  · next same => rw [same]
  · rfl

/-- The signal is down behind a taken picture, whether there was one or not. -/
theorem after_perform_takeFrame (machine : Machine) :
    (machine.perform .takeFrame).after
      = { machine with core := { machine.core with redraw := false } } := by
  simp only [perform, takeFrame]
  split
  · rfl
  · next down => rw [← Bool.eq_false_iff.mpr down]

/-- A property that a step and every act of the host preserve. -/
structure Invariant (P : Machine → Prop) : Prop where
  step : ∀ machine, P machine → P machine.step.after
  tick : ∀ machine, P machine → P machine.tick
  load : ∀ machine program memory, machine.core.memory.load program = .ok memory →
    P machine → P { machine with core := { machine.core with memory } }
  setKeys : ∀ machine keypad, P machine → P (machine.setKeys keypad)
  setControl : ∀ machine control, P machine →
    P { machine with core := { machine.core with control } }
  reset : ∀ machine, P machine → P { machine with core := machine.core.reset }
  lowerRedraw : ∀ machine, P machine →
    P { machine with core := { machine.core with redraw := false } }

namespace Invariant

variable {P : Machine → Prop}

theorem steps (inv : Invariant P) (n : Nat) {machine : Machine} (h : P machine) :
    P (machine.steps n) := by
  induction n generalizing machine with
  | zero => exact h
  | succ n ih => exact ih (inv.step machine h)

theorem runFrame (inv : Invariant P) {machine : Machine} (h : P machine) :
    P machine.runFrame.after := by
  by_cases running : machine.core.control = .running
  · rw [after_runFrame running]
    exact inv.tick _ (inv.steps _ h)
  · rw [runFrame_of_idle running]
    exact h

theorem load_perform (inv : Invariant P) (program : List Byte) {machine : Machine}
    (h : P machine) : P (machine.perform (.load program)).after := by
  rcases perform_load_cases machine program with same | ⟨memory, loaded, after⟩
  · rw [same]; exact h
  · rw [after]; exact inv.load machine program memory loaded h

theorem apply (inv : Invariant P) (intent : Intent) {machine : Machine} (h : P machine) :
    P (machine.apply intent).after := by
  unfold Machine.apply
  split
  · exact inv.reset machine h
  · unfold Machine.setControl
    split
    · exact h
    · exact inv.setControl machine _ h

theorem perform (inv : Invariant P) (command : Command) {machine : Machine} (h : P machine) :
    P (machine.perform command).after := by
  cases command with
  | load program => exact inv.load_perform program h
  | loadFrom source =>
    rcases perform_loadFrom_cases machine source with same | ⟨program, _, after⟩
    · rw [same]; exact h
    · rw [after]; exact inv.load_perform program h
  | step => exact inv.step machine h
  | runFrame => exact inv.runFrame h
  | tick => exact inv.tick machine h
  | press key => exact inv.setKeys machine _ h
  | release key => exact inv.setKeys machine _ h
  | setKeys keypad => exact inv.setKeys machine keypad h
  | apply intent => exact inv.apply intent h
  | reset => exact inv.reset machine h
  | takeFrame =>
    simp only [Machine.perform, Machine.takeFrame]
    split
    · exact inv.lowerRedraw machine h
    · exact h

/-- What holds at the beginning of a run holds at its end. -/
theorem performAll (inv : Invariant P) (commands : List Command) {machine : Machine}
    (h : P machine) : P (machine.performAll commands).after := by
  induction commands generalizing machine with
  | nil => exact h
  | cons command rest ih => exact ih (inv.perform command h)

end Invariant

/-- No command changes what the machine was built with. -/
theorem invariant_settings (settings : Settings) :
    Invariant fun machine => machine.settings = settings where
  step machine h := machine.settings_step.trans h
  tick _ h := h
  load _ _ _ _ h := h
  setKeys _ _ h := h
  setControl _ _ h := h
  reset _ h := h
  lowerRedraw _ h := h

theorem settings_performAll (machine : Machine) (commands : List Command) :
    (machine.performAll commands).after.settings = machine.settings :=
  (invariant_settings machine.settings).performAll commands rfl

end ChipEight.Machine
