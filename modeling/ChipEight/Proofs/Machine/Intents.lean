import ChipEight.Proofs.Machine.Event
import ChipEight.Proofs.Machine.Host
import Mathlib.Data.List.DropRight
/-!
# Intents of a run

Whether a machine runs, is paused or is halted follows from what its owner has asked of it
since the last reset, and from nothing else that was done to it.

## Main definitions

- `Command.intent?` — what a command asks of the machine
- `Intent.sinceReset` — the intents behind the last reset
- `Intent.pausedAfter` — whether a machine that is not halted is paused behind an intent

## Main statements

- `Machine.control_perform`, `Machine.control_performAll` — the control state behind a command
  and behind a run
- `Control.foldl_after_sinceReset`, `Control.foldl_after_of_no_reset` — intents taken together
- `Machine.performAll_of_idle` — a machine that does not run stands still
- `Machine.control_follows_intents` — every run from switching on
-/

namespace ChipEight

/-- What a command asks of the machine, if it is an intent. -/
def Command.intent? : Command → Option Intent
  | .apply intent => some intent
  | .reset => some .reset
  | _ => none

namespace Intent

/-- The intents behind the last reset, or all of them if there was none. -/
def sinceReset (intents : List Intent) : List Intent :=
  intents.rtakeWhile (· ≠ .reset)

/-- Whether a machine that is neither halted nor reset is paused behind an intent. -/
def pausedAfter (paused : Bool) : Intent → Bool
  | .pause => true
  | .resume => false
  | .togglePause => !paused
  | .halt | .reset => paused

theorem reset_notMem_sinceReset (intents : List Intent) : .reset ∉ sinceReset intents := by
  intro member
  simpa using List.mem_rtakeWhile_imp member

end Intent

namespace Control

/-- The control state of a machine that is not halted. -/
def ofPaused (paused : Bool) : Control :=
  if paused then .paused else .running

theorem after_halted {intent : Intent} (no_reset : intent ≠ .reset) :
    halted.after intent = .halted := by
  cases intent with
  | reset => exact absurd rfl no_reset
  | _ => rfl

theorem after_ofPaused {intent : Intent} (no_reset : intent ≠ .reset) (no_halt : intent ≠ .halt)
    (paused : Bool) : (ofPaused paused).after intent = ofPaused (intent.pausedAfter paused) := by
  cases intent with
  | reset => exact absurd rfl no_reset
  | halt => exact absurd rfl no_halt
  | _ => cases paused <;> rfl

theorem foldl_after_halted {intents : List Intent} (no_reset : .reset ∉ intents) :
    intents.foldl after .halted = .halted := by
  induction intents with
  | nil => rfl
  | cons intent rest ih =>
    rw [List.mem_cons, not_or] at no_reset
    rw [List.foldl_cons, after_halted (Ne.symm no_reset.1), ih no_reset.2]

/-- Without a reset the first halt is final, and up to a halt the intents pause and resume. -/
theorem foldl_after_of_no_reset {intents : List Intent} (no_reset : .reset ∉ intents)
    (paused : Bool) :
    intents.foldl after (ofPaused paused) =
      if .halt ∈ intents then .halted
      else ofPaused (intents.foldl Intent.pausedAfter paused) := by
  induction intents generalizing paused with
  | nil => rfl
  | cons intent rest ih =>
    rw [List.mem_cons, not_or] at no_reset
    obtain ⟨this_one, others⟩ := no_reset
    by_cases halts : intent = .halt
    · have halted : (ofPaused paused).after .halt = .halted := by cases paused <;> rfl
      rw [halts, List.foldl_cons, halted, foldl_after_halted others, if_pos List.mem_cons_self]
    · rw [List.foldl_cons, after_ofPaused (Ne.symm this_one) halts, ih others, List.foldl_cons]
      exact if_congr (by simp [Ne.symm halts]) rfl rfl

/-- What was asked before the last reset no longer matters. -/
theorem foldl_after_sinceReset (intents : List Intent) :
    intents.foldl after .running = (Intent.sinceReset intents).foldl after .running := by
  let before := intents.rdropWhile (· ≠ .reset)
  have parts : before ++ Intent.sinceReset intents = intents := List.rdropWhile_append_rtakeWhile ..
  have running : before.foldl after .running = .running := by
    by_cases none : before = []
    · rw [none]
      rfl
    · have last : before.getLast none = .reset := by
        have stops := List.rdropWhile_last_not _ _ none
        rwa [decide_eq_true_iff, not_not] at stops
      rw [← List.dropLast_append_getLast none, List.foldl_append, last]
      rfl
  calc intents.foldl after .running
      = (Intent.sinceReset intents).foldl after (before.foldl after .running) := by
        rw [← List.foldl_append, parts]
    _ = (Intent.sinceReset intents).foldl after .running := by rw [running]

end Control

namespace Machine

variable {machine : Machine}

theorem control_runFrame (machine : Machine) :
    machine.runFrame.after.core.control = machine.core.control := by
  by_cases running : machine.core.control = .running
  · rw [after_runFrame running]
    exact control_steps _ machine
  · rw [runFrame_of_idle running]

/-- A command changes the control state as its intent does, and not at all if it has none. -/
theorem control_perform (machine : Machine) (command : Command) :
    (machine.perform command).after.core.control
      = (command.intent?.map machine.core.control.after).getD machine.core.control := by
  cases steps : command.takesSteps with
  | true =>
    cases command with
    | step => exact control_step machine
    | runFrame => exact control_runFrame machine
    | _ => cases steps
  | false =>
    have act := machine.hostAct_perform steps
    generalize (machine.perform command).after = after at act ⊢
    cases act <;> rfl

/-- So the control state behind a run follows from its intents. -/
theorem control_performAll (machine : Machine) (commands : List Command) :
    (machine.performAll commands).after.core.control
      = (commands.filterMap Command.intent?).foldl Control.after machine.core.control := by
  induction commands generalizing machine with
  | nil => rfl
  | cons command rest ih =>
    have others := ih (machine.perform command).after
    rw [control_perform] at others
    rw [List.filterMap_cons]
    cases intent : command.intent? with
    | none =>
      rw [intent] at others
      exact others
    | some intent =>
      rw [intent] at others
      exact others

theorem perform_of_idle (idle : machine.core.control ≠ .running) {command : Command}
    (steps : command.takesSteps = true) :
    (machine.perform command).after = machine ∧ (machine.perform command).events = #[] := by
  cases command with
  | step => simp only [perform, step_of_idle idle, and_self]
  | runFrame => simp only [perform, runFrame_of_idle idle, and_self]
  | _ => cases steps

/-- Steps and frames of a machine that does not run do nothing and report nothing. -/
theorem performAll_of_idle (idle : machine.core.control ≠ .running) {commands : List Command}
    (steps : ∀ command ∈ commands, command.takesSteps = true) :
    (machine.performAll commands).after = machine ∧
      (machine.performAll commands).events = #[] := by
  induction commands with
  | nil => exact ⟨rfl, rfl⟩
  | cons command rest ih =>
    obtain ⟨same, silent⟩ := perform_of_idle idle (steps command List.mem_cons_self)
    obtain ⟨stays, quiet⟩ := ih fun other member => steps other (List.mem_cons_of_mem _ member)
    simp only [performAll, same, silent, stays, quiet, Array.append_empty, and_self]

/-- Every intent but a reset reports the change of the control state, if it makes one. -/
theorem events_perform_apply {intent : Intent} (no_reset : intent ≠ .reset) (machine : Machine) :
    (machine.perform (.apply intent)).events =
      if machine.core.control.after intent = machine.core.control then #[]
      else #[.controlChanged machine.core.control (machine.core.control.after intent)] := by
  simp only [perform, apply, if_neg no_reset, setControl]
  split <;> rfl

/-- The control state of every machine that can be reached. It is halted exactly if a halt was
among the intents since the last reset, and otherwise these have paused and resumed it one after
the other. Nothing but an intent changes it, a reset always leaves it running, and any other
intent changes nothing else and reports what it changes, by both names. A machine that does not run stands
still over any number of steps and frames. -/
theorem control_follows_intents (settings : Settings) (random : WordStream)
    (history : List Command) :
    let machine := ((switchedOn settings random).performAll history).after
    let intents := Intent.sinceReset (history.filterMap Command.intent?)
    (machine.core.control = .halted ↔ .halt ∈ intents) ∧
    (.halt ∉ intents → machine.core.control =
      if intents.foldl Intent.pausedAfter false then .paused else .running) ∧
    ∀ machine : Machine,
      (∀ command : Command, command.intent? = none →
        (machine.perform command).after.core.control = machine.core.control) ∧
      (∀ command : Command, command.intent? = some .reset →
        (machine.perform command).after.core.control = .running) ∧
      (∀ intent : Intent, intent ≠ .reset →
        let report := machine.perform (.apply intent)
        let control := report.after.core.control
        report.after = { machine with core := { machine.core with control } } ∧
        (report.events = if control = machine.core.control then #[]
          else #[.controlChanged machine.core.control control]) ∧
        ∀ event ∈ report.events,
          event.level = .debug ∧ event.message = "control state changed" ∧
          ∃ name name', machine.core.control.Named name ∧ control.Named name' ∧
            event.fields = [("from", .text name), ("to", .text name')]) ∧
      (machine.core.control ≠ .running → ∀ commands : List Command,
        (∀ command ∈ commands, command.takesSteps = true) →
          (machine.performAll commands).after = machine ∧
            (machine.performAll commands).events = #[]) := by
  intro machine intents
  have control : machine.core.control = if .halt ∈ intents then .halted
      else Control.ofPaused (intents.foldl Intent.pausedAfter false) := by
    have folded := (switchedOn settings random).control_performAll history
    rw [show (switchedOn settings random).core.control = .running from rfl,
      Control.foldl_after_sinceReset] at folded
    exact folded.trans (Control.foldl_after_of_no_reset (Intent.reset_notMem_sinceReset _) false)
  refine ⟨?_, ?_, fun machine => ⟨?_, ?_, ?_, ?_⟩⟩
  · rw [control]
    by_cases halts : .halt ∈ intents
    · simp [halts]
    · cases paused : intents.foldl Intent.pausedAfter false <;> simp [halts, Control.ofPaused]
  · intro no_halt
    rw [control, if_neg no_halt]
    rfl
  · intro command no_intent
    rw [control_perform, no_intent]
    rfl
  · intro command resets
    rw [control_perform, resets]
    rfl
  · intro intent no_reset report control
    have changed : control = machine.core.control.after intent := control_perform machine _
    have events : report.events = _ := events_perform_apply no_reset machine
    rw [← changed] at events
    refine ⟨?_, events, fun event member => ?_⟩
    · rw [changed]
      exact after_perform_apply no_reset machine
    · rw [events] at member
      split at member
      · cases Array.not_mem_empty event member
      · rw [Array.mem_singleton.mp member]
        exact (Event.tells _).of_controlChanged
  · intro idle commands steps
    exact performAll_of_idle idle steps

end Machine

end ChipEight
