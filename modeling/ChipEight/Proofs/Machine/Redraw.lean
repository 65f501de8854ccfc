import ChipEight.Proofs.Instruction.WriteSet
import ChipEight.Proofs.Machine.Host
import Mathlib.Data.List.DropRight
/-!
# The redraw signal

The signal says that the picture was drawn on since it was last handed out. It tells the
truth in every run: it is raised by the instructions that touch the picture and by nothing
else, and while it is down the picture is the one that was handed out last.

## Main definitions

- `Machine.draws` — a machine whose next step executes an instruction that touches the
  picture
- `Command.lowersRedraw`, `Command.resets` — the commands that lower the signal
- `Command.untilLowered`, `Command.sinceLowered` — a run cut behind the last of them
- `lastFrame?` — the picture handed out last

## Main statements

- `Machine.redraw_step`, `Machine.screen_step` — what a step does to signal and picture
- `Machine.redraw_performAll`, `Machine.redraw_performAll_eq_false` — the signal behind a run
- `Machine.screen_performAll` — the picture behind a run with the signal down
- `Machine.redraw_truthful` — every run from switching on
-/

namespace ChipEight

/-- Whether the next step executes an instruction that touches the picture. -/
def Machine.draws (machine : Machine) : Bool :=
  match machine.step.value with
  | .executed instruction => instruction.draws
  | _ => false

/-- Whether a command resets the machine. -/
def Command.resets : Command → Bool
  | .reset | .apply .reset => true
  | _ => false

/-- Whether a command lowers the signal: a reset does, and handing out the picture. -/
def Command.lowersRedraw (command : Command) : Bool :=
  command.resets || command = .takeFrame

/-- The commands of a run up to the last one that lowers the signal. -/
def Command.untilLowered (history : List Command) : List Command :=
  history.rdropWhile fun command => !command.lowersRedraw

/-- The commands of a run behind the last one that lowers the signal. -/
def Command.sinceLowered (history : List Command) : List Command :=
  history.rtakeWhile fun command => !command.lowersRedraw

theorem Command.untilLowered_append_sinceLowered (history : List Command) :
    untilLowered history ++ sinceLowered history = history :=
  List.rdropWhile_append_rtakeWhile ..

theorem Command.lowersRedraw_of_mem_sinceLowered {history : List Command} {command : Command}
    (member : command ∈ sinceLowered history) : command.lowersRedraw = false := by
  simpa using List.mem_rtakeWhile_imp member

/-- The picture that a response hands out, if it hands one out. -/
def Response.frame? : Response → Option Screen
  | .frame screen => screen
  | _ => none

/-- The picture that was handed out last. -/
def lastFrame? (responses : List Response) : Option Screen :=
  (responses.filterMap Response.frame?).getLast?

theorem lastFrame?_cons (response : Response) (others : List Response) (blank : Screen) :
    (lastFrame? (response :: others)).getD blank
      = (lastFrame? others).getD (response.frame?.getD blank) := by
  rw [lastFrame?, List.filterMap_cons]
  cases response.frame? with
  | none => rfl
  | some screen =>
    rw [List.getLast?_cons]
    rfl

namespace Machine

variable {machine last : Machine} {others : List Machine}

theorem redraw_step (machine : Machine) :
    machine.step.after.core.redraw = (machine.core.redraw || machine.draws) := by
  rw [draws]
  have turn := machine.turn_step
  generalize machine.step = report at turn ⊢
  cases turn with
  | executed running word instruction core fetched decoded ran =>
    exact (effect_of_execute ran).redraw_eq
  | _ => exact (Bool.or_false _).symm

theorem screen_step (h : machine.draws = false) :
    machine.step.after.core.screen = machine.core.screen := by
  rw [draws] at h
  have turn := machine.turn_step
  generalize machine.step = report at turn h ⊢
  cases turn with
  | executed running word instruction core fetched decoded ran =>
    exact (effect_of_execute ran).screen_eq h
  | _ => rfl

theorem StepRun.redraw_eq (run : StepRun machine others last) :
    last.core.redraw = (machine.core.redraw || others.any draws) := by
  induction run with
  | nil machine => exact (Bool.or_false _).symm
  | cons rest ih => rw [ih, redraw_step, List.any_cons, Bool.or_assoc]

/-- Steps that end with the signal down have not touched the picture. -/
theorem StepRun.screen_eq (run : StepRun machine others last) (down : last.core.redraw = false) :
    machine.core.redraw = false ∧ last.core.screen = machine.core.screen := by
  induction run with
  | nil machine => exact ⟨down, rfl⟩
  | @cons machine _ _ rest ih =>
    obtain ⟨hredraw, hscreen⟩ := ih down
    rw [redraw_step, Bool.or_eq_false_iff] at hredraw
    exact ⟨hredraw.1, hscreen.trans (screen_step hredraw.2)⟩

theorem redraw_perform_of_takesSteps {command : Command} (h : command.takesSteps = true) :
    (machine.perform command).after.core.redraw
      = (machine.core.redraw || (machine.startsOf command).any draws) := by
  obtain ⟨last, delay, sound, run, after⟩ := after_perform_of_takesSteps h machine
  rw [after]
  exact run.redraw_eq

theorem screen_perform_of_takesSteps {command : Command} (h : command.takesSteps = true)
    (down : (machine.perform command).after.core.redraw = false) :
    machine.core.redraw = false ∧
      (machine.perform command).after.core.screen = machine.core.screen := by
  obtain ⟨last, delay, sound, run, after⟩ := after_perform_of_takesSteps h machine
  rw [after] at down ⊢
  exact run.screen_eq down

theorem after_perform_of_resets {command : Command} (h : command.resets = true) :
    (machine.perform command).after = machine.reset.after := by
  cases command with
  | reset => rfl
  | apply intent =>
    cases intent with
    | reset => rfl
    | _ => cases h
  | _ => cases h

theorem redraw_perform_of_lowersRedraw {command : Command} (h : command.lowersRedraw = true) :
    (machine.perform command).after.core.redraw = false := by
  rw [Command.lowersRedraw, Bool.or_eq_true, decide_eq_true_iff] at h
  rcases h with resets | rfl
  · rw [after_perform_of_resets resets]
    rfl
  · rw [after_perform_takeFrame]

/-- What the host does apart from resets and taking the picture leaves signal and picture
alone. -/
theorem screen_perform_of_host {command : Command} (no_step : command.takesSteps = false)
    (quiet : command.lowersRedraw = false) :
    (machine.perform command).after.core.redraw = machine.core.redraw ∧
      (machine.perform command).after.core.screen = machine.core.screen := by
  have act := machine.hostAct_perform no_step
  generalize (machine.perform command).after = after at act ⊢
  cases act with
  | applyReset => cases quiet
  | reset => cases quiet
  | takeFrame => cases quiet
  | _ => exact ⟨rfl, rfl⟩

/-- A command that does not lower the signal raises it if one of its steps draws. -/
theorem redraw_perform {command : Command} (quiet : command.lowersRedraw = false) :
    (machine.perform command).after.core.redraw
      = (machine.core.redraw || (machine.startsOf command).any draws) := by
  cases h : command.takesSteps with
  | true => exact redraw_perform_of_takesSteps h
  | false =>
    rw [(screen_perform_of_host h quiet).1, startsOf_of_not_takesSteps h]
    exact (Bool.or_false _).symm

theorem redraw_performAll {commands : List Command}
    (quiet : ∀ command ∈ commands, command.lowersRedraw = false) :
    (machine.performAll commands).after.core.redraw
      = (machine.core.redraw || (machine.starts commands).any draws) := by
  induction commands generalizing machine with
  | nil => exact (Bool.or_false _).symm
  | cons command rest ih =>
    have first : (machine.perform command).after.core.redraw
        = (machine.core.redraw || (machine.startsOf command).any draws) :=
      redraw_perform (quiet command List.mem_cons_self)
    rw [starts, List.any_append, ← Bool.or_assoc, ← first]
    exact ih fun other member => quiet other (List.mem_cons_of_mem _ member)

/-- As long as no step draws, a signal that is down stays down, whatever else is done. -/
theorem redraw_performAll_eq_false {commands : List Command} (down : machine.core.redraw = false)
    (undrawn : ∀ start ∈ machine.starts commands, start.draws = false) :
    (machine.performAll commands).after.core.redraw = false := by
  induction commands generalizing machine with
  | nil => exact down
  | cons command rest ih =>
    refine ih ?_ fun start member => undrawn start (List.mem_append_right _ member)
    cases h : command.lowersRedraw with
    | true => exact redraw_perform_of_lowersRedraw h
    | false =>
      have first : (machine.startsOf command).any draws = false :=
        List.any_eq_false.mpr fun start member =>
          Bool.eq_false_iff.mp (undrawn start (List.mem_append_left _ member))
      rw [redraw_perform h, down, first, Bool.or_false]

theorem frame?_perform {command : Command} (h : command ≠ .takeFrame) :
    (machine.perform command).value.frame? = none := by
  cases command with
  | load program =>
    simp only [perform, respond]
    split <;> rfl
  | loadFrom source =>
    simp only [perform, respond]
    split <;> rfl
  | takeFrame => exact absurd rfl h
  | _ => rfl

/-- While the signal is down the picture is the one shown last: a command that is no reset
keeps this, where the picture that it hands out takes the place of the one shown before. -/
theorem screen_perform {command : Command} (no_reset : command.resets = false) {shown : Screen}
    (h : machine.core.redraw = false → machine.core.screen = shown)
    (down : (machine.perform command).after.core.redraw = false) :
    (machine.perform command).after.core.screen
      = ((machine.perform command).value.frame?).getD shown := by
  by_cases taken : command = .takeFrame
  · subst taken
    simp only [perform, takeFrame]
    split
    · rfl
    · next low => exact h (Bool.eq_false_iff.mpr low)
  · rw [frame?_perform taken]
    cases steps : command.takesSteps with
    | true =>
      obtain ⟨low, same⟩ := screen_perform_of_takesSteps steps down
      exact same.trans (h low)
    | false =>
      have quiet : command.lowersRedraw = false := by simp [Command.lowersRedraw, no_reset, taken]
      obtain ⟨signal, same⟩ :
          (machine.perform command).after.core.redraw = machine.core.redraw ∧
            (machine.perform command).after.core.screen = machine.core.screen :=
        screen_perform_of_host steps quiet
      exact same.trans (h (signal.symm.trans down))

theorem screen_performAll {commands : List Command}
    (no_reset : ∀ command ∈ commands, command.resets = false) {shown : Screen}
    (h : machine.core.redraw = false → machine.core.screen = shown)
    (down : (machine.performAll commands).after.core.redraw = false) :
    (machine.performAll commands).after.core.screen
      = (lastFrame? (machine.performAll commands).value).getD shown := by
  induction commands generalizing machine shown with
  | nil => exact h down
  | cons command rest ih =>
    have first := screen_perform (no_reset command List.mem_cons_self) h
    have others := ih (fun other member => no_reset other (List.mem_cons_of_mem _ member)) first
      down
    rw [performAll, lastFrame?_cons]
    exact others

/-- Nothing is handed out behind commands without a step that draws, if the signal was
down before them. -/
theorem value_takeFrame_eq_none {commands : List Command} (down : machine.core.redraw = false)
    (undrawn : ∀ start ∈ machine.starts commands, start.draws = false) :
    (machine.performAll commands).after.takeFrame.value = none := by
  have low : (machine.performAll commands).after.core.redraw = false :=
    redraw_performAll_eq_false down undrawn
  rw [takeFrame, low]
  rfl

/-- A run that has just lowered the signal, or has not begun, leaves it down. -/
theorem redraw_untilLowered (down : machine.core.redraw = false) (history : List Command) :
    (machine.performAll (Command.untilLowered history)).after.core.redraw = false := by
  by_cases none : Command.untilLowered history = []
  · rw [none]
    exact down
  · have lowers := List.rdropWhile_last_not _ _ none
    rw [Bool.not_eq_true, Bool.not_eq_false'] at lowers
    rw [← List.dropLast_append_getLast none, after_performAll_append]
    exact redraw_perform_of_lowersRedraw lowers

/-- The picture is handed out exactly if a step behind the last command that lowers the
signal has drawn. -/
theorem value_takeFrame_performAll (down : machine.core.redraw = false) (history : List Command) :
    (machine.performAll history).after.takeFrame.value =
      if ((machine.performAll (Command.untilLowered history)).after.starts
          (Command.sinceLowered history)).any draws
      then some (machine.performAll history).after.core.screen else none := by
  have parts := after_performAll_append machine (Command.untilLowered history)
    (Command.sinceLowered history)
  rw [Command.untilLowered_append_sinceLowered] at parts
  have signal := @redraw_performAll (machine.performAll (Command.untilLowered history)).after
    (Command.sinceLowered history) fun _ => Command.lowersRedraw_of_mem_sinceLowered
  rw [← parts, redraw_untilLowered down, Bool.false_or] at signal
  rw [takeFrame, ← signal]
  split <;> rfl

/-- In every run from switching on the signal tells the truth about the picture.

A picture is handed out exactly if an instruction that draws was executed behind the last
command that lowers the signal, and it is the one that stands in the machine; until another
such instruction is executed, whatever else is done, none is handed out again. Unless there
was a reset, the picture is the one handed out last whenever the signal is down, where a
blank one counts as handed out at the beginning. A reset leaves a blank picture, and the
signal down until an instruction draws. -/
theorem redraw_truthful (settings : Settings) (random : WordStream) (history : List Command) :
    let switched := switchedOn settings random
    let machine := (switched.performAll history).after
    (machine.takeFrame.value =
      if ∃ start ∈ (switched.performAll (Command.untilLowered history)).after.starts
          (Command.sinceLowered history), start.draws = true
      then some machine.core.screen else none) ∧
    (∀ between : List Command,
      (∀ start ∈ machine.takeFrame.after.starts between, start.draws = false) →
        (machine.takeFrame.after.performAll between).after.takeFrame.value = none) ∧
    ((∀ command ∈ history, command.resets = false) → machine.core.redraw = false →
      machine.core.screen = (lastFrame? (switched.performAll history).value).getD Screen.blank) ∧
    ∀ command : Command, command.resets = true →
      (machine.perform command).after.core.screen = Screen.blank ∧
      ∀ between : List Command,
        (∀ start ∈ (machine.perform command).after.starts between, start.draws = false) →
          ((machine.perform command).after.performAll between).after.core.redraw = false := by
  intro switched machine
  refine ⟨?_, ?_, ?_, ?_⟩
  · rw [value_takeFrame_performAll rfl history]
    exact if_congr List.any_eq_true rfl rfl
  · intro between undrawn
    exact value_takeFrame_eq_none
      (@redraw_perform_of_lowersRedraw machine .takeFrame rfl) undrawn
  · intro no_reset down
    exact screen_performAll no_reset (fun _ => rfl) down
  · intro command resets
    rw [after_perform_of_resets resets]
    exact ⟨rfl, fun between undrawn => redraw_performAll_eq_false rfl undrawn⟩

end Machine

end ChipEight
