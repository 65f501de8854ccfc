import ChipEight.Machine.Command
import ChipEight.Proofs.Machine.Batch
/-!
# Steps of a run

Which steps the commands of a run take, and from which machines. What a run has executed
is read off these machines: each of them tells by its `step` what came of it.

## Main definitions

- `Machine.batchStarts`, `Machine.startsOf`, `Machine.starts` — the machines from which the
  steps of a batch, of a command and of a run start
- `Machine.StepRun` — steps taken one after the other

## Main statements

- `Machine.exists_start_of_mem_stepResults` — a batch shows all that plain steps amount to
- `Machine.stepRun_attempt` — a batch takes its steps one after the other
- `Machine.stepRun_perform`, `Machine.after_perform_of_takesSteps` — so does a command, which
  may tick behind them
-/

namespace ChipEight

/-- Whether a command lets the machine take steps. -/
def Command.takesSteps : Command → Bool
  | .step | .runFrame => true
  | _ => false

namespace Machine

/-- The machines from which the steps of a batch of at most `count` start. A batch goes on
behind a step that ran an instruction or failed to, and ends at any other. -/
def batchStarts : (count : Nat) → Machine → List Machine
  | 0, _ => []
  | count + 1, machine =>
    machine :: if machine.step.value.isAttempt then batchStarts count machine.step.after else []

/-- The machines from which the steps of a command start. -/
def startsOf (machine : Machine) : Command → List Machine
  | .step => [machine]
  | .runFrame => batchStarts machine.settings.instructionsPerFrame machine
  | _ => []

/-- The machines from which the steps of a run start, in their order. -/
def starts : Machine → List Command → List Machine
  | _, [] => []
  | machine, command :: rest =>
    machine.startsOf command ++ (machine.perform command).after.starts rest

/-- Steps from the listed machines, one after the other, lead from one machine to another. -/
inductive StepRun : Machine → List Machine → Machine → Prop where
  | nil (machine : Machine) : StepRun machine [] machine
  | cons {machine last : Machine} {others : List Machine}
      (rest : StepRun machine.step.after others last) : StepRun machine (machine :: others) last

theorem starts_append (machine : Machine) (first others : List Command) :
    machine.starts (first ++ others)
      = machine.starts first ++ (machine.performAll first).after.starts others := by
  induction first generalizing machine with
  | nil => rfl
  | cons command rest ih =>
    rw [List.cons_append, starts, ih, starts, List.append_assoc, performAll]

theorem startsOf_of_not_takesSteps {command : Command} (h : command.takesSteps = false)
    (machine : Machine) : machine.startsOf command = [] := by
  cases command with
  | step => cases h
  | runFrame => cases h
  | _ => rfl

theorem stepRun_attempt (count : Nat) (machine : Machine) (attempted : Nat)
    (events : Array Event) :
    StepRun machine (batchStarts count machine)
      (attempt count machine attempted events).after := by
  induction count generalizing machine attempted events with
  | zero => exact .nil machine
  | succ count ih =>
    rw [attempt, batchStarts]
    refine .cons ?_
    cases machine.step.value with
    | executed instruction => exact ih _ _ _
    | failed fault => exact ih _ _ _
    -- the batch ends here
    | awaitingKey => exact .nil _
    | stopped => exact .nil _

/-- What plain steps amount to is what the steps of a batch amount to: the steps that the
batch leaves out repeat the last one. -/
theorem exists_start_of_mem_stepResults {count : Nat} {machine : Machine} {result : StepResult}
    (member : result ∈ stepResults count machine) :
    ∃ start ∈ batchStarts count machine, start.step.value = result := by
  induction count generalizing machine with
  | zero => cases member
  | succ count ih =>
    rcases List.mem_cons.mp member with rfl | later
    · exact ⟨machine, List.mem_cons_self, rfl⟩
    cases goes_on : machine.step.value.isAttempt with
    | true =>
      obtain ⟨start, started, same⟩ := ih later
      refine ⟨start, List.mem_cons_of_mem _ ?_, same⟩
      rw [if_pos goes_on]
      exact started
    | false =>
      have again : machine.step.after.step.value = machine.step.value ∧
          machine.step.after.step.after = machine.step.after := by
        cases hvalue : machine.step.value with
        | executed instruction | failed fault =>
          rw [hvalue] at goes_on
          cases goes_on
        | awaitingKey =>
          rw [step_after_of_awaitingKey hvalue]
          exact ⟨rfl, rfl⟩
        | stopped =>
          have idle := value_step_eq_stopped_iff.mp hvalue
          rw [step_of_idle idle, step_of_idle idle]
          exact ⟨rfl, rfl⟩
      rw [stepResults_of_fixed again.2, again.1] at later
      exact ⟨machine, List.mem_cons_self, (List.eq_of_mem_replicate later).symm⟩

/-- The steps of a command lead to the machine behind it, up to a tick. -/
theorem stepRun_perform {command : Command} (h : command.takesSteps = true) (machine : Machine) :
    ∃ last, StepRun machine (machine.startsOf command) last ∧
      ((machine.perform command).after = last ∨ (machine.perform command).after = last.tick) := by
  cases command with
  | step => exact ⟨machine.step.after, .cons (.nil _), Or.inl rfl⟩
  | runFrame =>
    refine ⟨_, stepRun_attempt machine.settings.instructionsPerFrame machine 0 #[], ?_⟩
    simp only [perform, runFrame]
    split
    · exact Or.inr rfl
    · exact Or.inl rfl
  | _ => cases h

/-- Up to the timers, the machine behind a command is the one that its steps lead to. -/
theorem after_perform_of_takesSteps {command : Command} (h : command.takesSteps = true)
    (machine : Machine) :
    ∃ last delay sound, StepRun machine (machine.startsOf command) last ∧
      (machine.perform command).after
        = { last with core := { last.core with delay, sound } } := by
  obtain ⟨last, run, after | after⟩ := stepRun_perform h machine
  · exact ⟨last, last.core.delay, last.core.sound, run, after⟩
  · exact ⟨last, last.core.tick.delay, last.core.tick.sound, run, after⟩

end Machine

end ChipEight
