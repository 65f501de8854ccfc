import ChipEight.Machine.Frame
import ChipEight.Proofs.Machine.Atomicity
/-!
# Batches

A frame ends its batch of instructions at the first wait for a key. Nothing is
lost by that: a machine that waits is a fixed point of `step`, so the rest of the
batch could only have waited on.

## Main definitions

- `StepResult.isAttempt` — the steps that a frame counts
- `Machine.stepResults` — what so many steps amount to

## Main statements

- `Machine.step_after_of_awaitingKey` — a wait is repeated without a change
- `Machine.after_attempt`, `Machine.value_attempt` — a batch against plain steps
- `Machine.runFrame_unobservable` — a frame against plain steps and one tick
-/

namespace ChipEight

/-- Whether a step ran an instruction or failed to run one. -/
def StepResult.isAttempt : StepResult → Bool
  | .executed _ | .failed _ => true
  | .awaitingKey | .stopped => false

namespace Machine

/-- What so many steps amount to, one after the other, whatever they amount to. -/
def stepResults : Nat → Machine → List StepResult
  | 0, _ => []
  | n + 1, machine => machine.step.value :: stepResults n machine.step.after

@[simp] theorem length_stepResults (n : Nat) (machine : Machine) :
    (stepResults n machine).length = n := by
  induction n generalizing machine with
  | zero => rfl
  | succ n ih => rw [stepResults, List.length_cons, ih]

theorem steps_add (m n : Nat) (machine : Machine) :
    steps (m + n) machine = steps n (steps m machine) := by
  induction m generalizing machine with
  | zero => rw [Nat.zero_add, steps]
  | succ m ih => rw [Nat.add_right_comm, steps, ih, steps]

theorem stepResults_add (m n : Nat) (machine : Machine) :
    stepResults (m + n) machine
      = stepResults m machine ++ stepResults n (steps m machine) := by
  induction m generalizing machine with
  | zero => rw [Nat.zero_add, stepResults, steps, List.nil_append]
  | succ m ih => rw [Nat.add_right_comm, stepResults, ih, stepResults, steps, List.cons_append]

@[simp] theorem settings_steps (n : Nat) (machine : Machine) :
    (steps n machine).settings = machine.settings := by
  induction n generalizing machine with
  | zero => rfl
  | succ n ih => rw [steps, ih, settings_step]

@[simp] theorem control_steps (n : Nat) (machine : Machine) :
    (steps n machine).core.control = machine.core.control := by
  induction n generalizing machine with
  | zero => rfl
  | succ n ih => rw [steps, ih, control_step]

theorem value_step_eq_stopped_iff {machine : Machine} :
    machine.step.value = .stopped ↔ machine.core.control ≠ .running := by
  have turn := machine.turn_step
  generalize machine.step = report at turn ⊢
  cases turn with
  | stopped idle => simpa using idle
  | _ running => simp [fail, finish, running]

/-- A machine that waits for a key goes on waiting, and the second wait changes
nothing: the word that waits is remembered already. -/
theorem step_after_of_awaitingKey {machine : Machine}
    (awaiting : machine.step.value = .awaitingKey) :
    machine.step.after.step = { value := .awaitingKey, after := machine.step.after } := by
  have turn := machine.turn_step
  generalize machine.step = report at turn awaiting ⊢
  cases turn with
  | waiting running word instruction fetched decoded waits =>
    exact (@Turn.waiting (machine.latch word) running word instruction fetched decoded
      waits).step_eq
  | _ => cases awaiting

theorem steps_of_fixed {machine : Machine} (fixed : machine.step.after = machine) (n : Nat) :
    steps n machine = machine := by
  induction n with
  | zero => rfl
  | succ n ih => rw [steps, fixed, ih]

theorem stepResults_of_fixed {machine : Machine} (fixed : machine.step.after = machine) (n : Nat) :
    stepResults n machine = List.replicate n machine.step.value := by
  induction n with
  | zero => rfl
  | succ n ih => rw [stepResults, fixed, ih, List.replicate_succ]

/-- A batch leaves the machine that as many plain steps leave. -/
theorem after_attempt {machine : Machine} (running : machine.core.control = .running)
    (n attempted : Nat) (events : Array Event) :
    (attempt n machine attempted events).after = steps n machine := by
  induction n generalizing machine attempted events with
  | zero => rfl
  | succ n ih =>
    have running' : machine.step.after.core.control = .running := by rw [control_step, running]
    rw [attempt, steps]
    cases hvalue : machine.step.value with
    | executed instruction => exact ih running' _ _
    | failed fault => exact ih running' _ _
    | awaitingKey =>
      -- the steps that the batch leaves out wait as well
      have again := step_after_of_awaitingKey hvalue
      exact (steps_of_fixed (by rw [again]) n).symm
    | stopped => exact absurd running (value_step_eq_stopped_iff.mp hvalue)

/-- A batch counts the steps that ran an instruction or failed to. -/
theorem value_attempt {machine : Machine} (running : machine.core.control = .running)
    (n attempted : Nat) (events : Array Event) :
    (attempt n machine attempted events).value
      = attempted + (stepResults n machine).countP StepResult.isAttempt := by
  induction n generalizing machine attempted events with
  | zero => rfl
  | succ n ih =>
    have running' : machine.step.after.core.control = .running := by rw [control_step, running]
    rw [attempt, stepResults, List.countP_cons]
    cases hvalue : machine.step.value with
    | executed instruction => simp [ih running', StepResult.isAttempt]; omega
    | failed fault => simp [ih running', StepResult.isAttempt]; omega
    | awaitingKey =>
      have again := step_after_of_awaitingKey hvalue
      rw [stepResults_of_fixed (by rw [again]), again, List.countP_replicate]
      simp [StepResult.isAttempt]
    | stopped => exact absurd running (value_step_eq_stopped_iff.mp hvalue)

theorem attempt_of_idle {machine : Machine} (idle : machine.core.control ≠ .running)
    (n attempted : Nat) (events : Array Event) :
    attempt n machine attempted events = ⟨attempted, machine, events⟩ := by
  cases n with
  | zero => rfl
  | succ n => rw [attempt, step_of_idle idle]

theorem after_runFrame {machine : Machine} (running : machine.core.control = .running) :
    machine.runFrame.after = (steps machine.settings.instructionsPerFrame machine).tick := by
  have hafter := after_attempt running machine.settings.instructionsPerFrame 0 #[]
  rw [runFrame, hafter, control_steps, if_pos running]

theorem value_runFrame {machine : Machine} (running : machine.core.control = .running) :
    machine.runFrame.value
      = (stepResults machine.settings.instructionsPerFrame machine).countP
          StepResult.isAttempt := by
  have hafter := after_attempt running machine.settings.instructionsPerFrame 0 #[]
  rw [runFrame, hafter, control_steps, if_pos running, value_attempt running, Nat.zero_add]

theorem runFrame_of_idle {machine : Machine} (idle : machine.core.control ≠ .running) :
    machine.runFrame = { value := 0, after := machine } := by
  rw [runFrame, attempt_of_idle idle, if_neg idle]

/-- The early end of a batch cannot be observed. A frame of a running machine does
what so many unconditional steps and one tick do, and counts those of the steps that
ran an instruction or failed to; a frame of any other machine does nothing, and no
frame changes whether the machine runs. -/
theorem runFrame_unobservable (machine : Machine) :
    let count := machine.settings.instructionsPerFrame
    (machine.core.control = .running →
      machine.runFrame.after = (steps count machine).tick ∧
      machine.runFrame.value = (stepResults count machine).countP StepResult.isAttempt ∧
      machine.runFrame.value ≤ count) ∧
    (machine.core.control ≠ .running →
      machine.runFrame.after = machine ∧ machine.runFrame.value = 0) ∧
    machine.runFrame.after.core.control = machine.core.control := by
  intro count
  refine ⟨fun running => ⟨after_runFrame running, value_runFrame running, ?_⟩,
    fun idle => ?_, ?_⟩
  · rw [value_runFrame running]
    calc (stepResults count machine).countP StepResult.isAttempt
        ≤ (stepResults count machine).length := List.countP_le_length
      _ = count := length_stepResults count machine
  · rw [runFrame_of_idle idle]
    exact ⟨rfl, rfl⟩
  · by_cases running : machine.core.control = .running
    · rw [after_runFrame running]
      exact control_steps count machine
    · rw [runFrame_of_idle running]

end Machine

end ChipEight
