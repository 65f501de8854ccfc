import ChipEight.Proofs.Instruction.Dispute
import ChipEight.Proofs.Instruction.ReadSet
import ChipEight.Proofs.Machine.Atomicity
import ChipEight.Proofs.Machine.Coupling
/-!
# Equipment

A machine is a core with settings and a source of random words. The same core with other
settings and another source takes the same steps, as long as no instruction is executed that
the two dialects dispute and the bytes that are drawn come out the same.

## Main definitions

- `StepResult.drawsRandom` — the steps that draw a random byte
- `Machine.equip` — the core of a machine with other settings and random words
- `Machine.Suits` — equipment that makes no difference to a step

## Main statements

- `StepResult.drawsRandom_executed` — the instruction that asks for a random byte
- `Machine.random_step` — the random words behind a step
- `Machine.step_equip` — a step with other equipment
- `Machine.coupling_equipped` — all that is done to a machine and to one with other equipment
-/

namespace ChipEight

/-- Whether a step draws a random byte: whether it executes the one instruction that does. -/
def StepResult.drawsRandom : StepResult → Bool
  | .executed (.random _ _) => true
  | _ => false

/-- The instruction that draws is the one that asks for a byte. -/
theorem StepResult.drawsRandom_executed (instruction : Instruction) :
    (executed instruction).drawsRandom = instruction.drawsRandom := by
  cases instruction <;> rfl

/-- The stream behind a step that came to the result. -/
def WordStream.behind (random : WordStream) (result : StepResult) : WordStream :=
  if result.drawsRandom then random.advance else random

theorem WordStream.behind_of_quiet {result : StepResult} (quiet : result.drawsRandom = false)
    (random : WordStream) : random.behind result = random := by
  rw [behind, quiet]
  rfl

namespace Machine

variable {machine : Machine} {settings : Settings} {random : WordStream}
  {instruction : Instruction}

/-- The core of the machine with other settings and random words. -/
def equip (machine : Machine) (settings : Settings) (random : WordStream) : Machine :=
  { machine with settings, random }

theorem supply_snd (machine : Machine) (instruction : Instruction) :
    (machine.supply instruction).2 = machine.random.behind (.executed instruction) := by
  rw [supply, WordStream.behind, StepResult.drawsRandom_executed]
  split
  · rfl
  · rfl

/-- Only a step that executes the one instruction that draws takes a word. -/
theorem random_step (machine : Machine) :
    machine.step.after.random = machine.random.behind machine.step.value := by
  have turn := machine.turn_step
  generalize machine.step = report at turn ⊢
  cases turn with
  | executed running word instruction core fetched decoded ran =>
    exact machine.supply_snd instruction
  | _ => rfl

/-- The equipment makes no difference to an instruction: the dialects agree about it, and if
it draws a random byte then that is the same. -/
structure Suits (machine : Machine) (settings : Settings) (random : WordStream)
    (instruction : Instruction) : Prop where
  undisputed : instruction.disputed machine.settings.dialect settings.dialect = false
  byte : instruction.drawsRandom = true → random.byte = machine.random.byte

theorem Suits.byte_supply (suits : machine.Suits settings random instruction) :
    ((machine.equip settings random).supply instruction).1 = (machine.supply instruction).1 := by
  cases draws : instruction.drawsRandom with
  | true => simp [supply, equip, draws, suits.byte draws]
  | false => simp [supply, draws]

/-- With equipment that suits an instruction that it executes, a step comes to the same. -/
theorem step_equip
    (suits : ∀ instruction, machine.step.value = .executed instruction →
      machine.Suits settings random instruction) :
    (machine.equip settings random).step.value = machine.step.value ∧
      (machine.equip settings random).step.after
        = machine.step.after.equip settings (random.behind machine.step.value) := by
  have turn := machine.turn_step
  generalize machine.step = report at turn suits ⊢
  cases turn with
  | stopped idle =>
    rw [(@Turn.stopped (machine.equip settings random) idle).step_eq]
    exact ⟨rfl, rfl⟩
  | unfetched running fault refused =>
    rw [(@Turn.unfetched (machine.equip settings random) running fault refused).step_eq]
    exact ⟨rfl, rfl⟩
  | undecoded running word fetched unknown =>
    rw [(@Turn.undecoded (machine.equip settings random) running word fetched unknown).step_eq]
    exact ⟨rfl, rfl⟩
  | unexecuted running word instruction fault fetched decoded refused =>
    -- neither the dialect nor the random byte has a say in a failure
    have refused' : instruction.execute settings.dialect
        ((machine.equip settings random).supply instruction).1 (machine.latch word).core
          = .error fault := Instruction.execute_error_congr rfl rfl rfl refused
    rw [(@Turn.unexecuted (machine.equip settings random) running word instruction fault fetched
      decoded refused').step_eq]
    exact ⟨rfl, rfl⟩
  | waiting running word instruction fetched decoded waits =>
    obtain ⟨x, rfl⟩ := Instruction.eq_awaitKey_of_execute waits
    rw [(@Turn.waiting (machine.equip settings random) running word (.awaitKey x) fetched
      decoded waits).step_eq]
    exact ⟨rfl, rfl⟩
  | executed running word instruction core fetched decoded ran =>
    have suited := suits instruction rfl
    have ran' : instruction.execute settings.dialect
        ((machine.equip settings random).supply instruction).1 (machine.latch word).core
          = .ok (.next core) := by
      rw [suited.byte_supply, Instruction.execute_eq_of_undisputed suited.undisputed, ran]
    rw [(@Turn.executed (machine.equip settings random) running word instruction core fetched
      decoded ran').step_eq]
    have drawn := (machine.equip settings random).supply_snd instruction
    exact ⟨rfl, congrArg ({ machine with core, settings, random := · }) drawn⟩

/-- The second machine is the first with other settings and random words made of its own. -/
def Equipped (given other : Settings) (renew : WordStream → WordStream)
    (first second : Machine) : Prop :=
  first.settings = given ∧ second = first.equip other (renew first.random)

/-- Whatever is done to a machine and to the same with other equipment comes to the same, as
long as the equipment suits the instructions that are executed. -/
theorem coupling_equipped {given other : Settings} {renew : WordStream → WordStream}
    {Safe : Machine → Prop} (speed : other.instructionsPerFrame = given.instructionsPerFrame)
    (suits : ∀ start : Machine, start.settings = given → Safe start →
      ∀ instruction, start.step.value = .executed instruction →
        start.Suits other (renew start.random) instruction)
    (renewed : ∀ start : Machine, Safe start → renew (start.random.behind start.step.value)
      = (renew start.random).behind start.step.value) :
    Coupling (Equipped given other renew) Safe id where
  control := by
    rintro first _ ⟨rfl, rfl⟩
    rfl
  memory := by
    rintro first _ ⟨rfl, rfl⟩
    rfl
  speed := by
    rintro first _ ⟨rfl, rfl⟩
    exact speed
  step := by
    rintro first _ ⟨rfl, rfl⟩ safe
    obtain ⟨value, after⟩ := step_equip (suits first rfl safe)
    refine ⟨value, first.settings_step, ?_⟩
    rw [after, random_step, renewed first safe]
  tick := by
    rintro first _ ⟨rfl, rfl⟩
    exact ⟨rfl, rfl⟩
  load := by
    rintro first _ memory ⟨rfl, rfl⟩
    exact ⟨rfl, rfl⟩
  setKeys := by
    rintro first _ change ⟨rfl, rfl⟩
    exact ⟨rfl, rfl⟩
  setControl := by
    rintro first _ control ⟨rfl, rfl⟩
    exact ⟨rfl, rfl⟩
  reset := by
    rintro first _ ⟨rfl, rfl⟩
    exact ⟨rfl, rfl⟩
  lowerRedraw := by
    rintro first _ ⟨rfl, rfl⟩
    exact ⟨rfl, rfl⟩
  frame := by
    rintro first _ ⟨rfl, rfl⟩
    cases signal : first.core.redraw with
    | true => simp [takeFrame, equip, signal]
    | false => simp [takeFrame, equip, signal]

end Machine

end ChipEight
