import ChipEight.Machine.Step
import ChipEight.Proofs.Instruction.Effect
/-!
# Turns

Every way in which a step can go, with what is known at its end. A step is opened
here and nowhere else.

## Main definitions

- `Memory.HoldsWord` — a word stands at an address
- `Machine.latch` — a word remembered as fetched
- `Machine.Turn` — the reports that a step can give

## Main statements

- `Core.fetch_eq_ok_iff_holdsWord` — the word that is fetched
- `Machine.turn_step` — a step gives one of these reports
- `Machine.ran_of_executed`, `Machine.effect_of_executed` — an executed instruction and its effect
- `Machine.control_step`, `Machine.settings_step` — what no step changes
-/

namespace ChipEight

/-- Both bytes of the word lie in memory from the address on, the high byte first. -/
def Memory.HoldsWord (memory : Memory) (address word : Word) : Prop :=
  ∃ _ : address.toNat + 1 < Memory.size,
    word.toNat = memory[address.toNat].toNat * 256 + memory[address.toNat + 1].toNat

theorem Memory.holdsWord_of_bytes {memory : Memory} {address word : Word} {high low : Byte}
    (first : memory[address.toNat]? = some high) (second : memory[address.toNat + 1]? = some low)
    (value : word.toNat = high.toNat * 256 + low.toNat) : memory.HoldsWord address word := by
  obtain ⟨_, rfl⟩ := Vector.getElem?_eq_some_iff.mp first
  obtain ⟨inside, rfl⟩ := Vector.getElem?_eq_some_iff.mp second
  exact ⟨inside, value⟩

/-- One word at most stands at an address. -/
theorem Memory.HoldsWord.unique {memory : Memory} {address word other : Word}
    (holds : memory.HoldsWord address word) (holds' : memory.HoldsWord address other) :
    word = other := by
  obtain ⟨inside, value⟩ := holds
  obtain ⟨_, value'⟩ := holds'
  exact UInt16.toNat_inj.mp (value.trans value'.symm)

/-- A word is fetched exactly where both of its bytes lie in memory. -/
theorem Core.fetch_eq_ok_iff_holdsWord {core : Core} {word : Word} :
    core.fetch = .ok word ↔ core.memory.HoldsWord core.pc word := by
  constructor
  · intro h
    obtain ⟨span, located, rfl⟩ := Except.map_eq_ok_iff.mp h
    obtain ⟨inside, hstart⟩ := Span.locate_eq_ok_iff.mp located
    refine ⟨inside, ?_⟩
    simp [Memory.getElem_read, hstart]
  · rintro ⟨inside, value⟩
    refine Except.map_eq_ok_iff.mpr ⟨⟨core.pc.toNat, inside⟩, ?_, UInt16.toNat_inj.mp ?_⟩
    · exact Span.locate_eq_ok_iff.mpr ⟨inside, rfl⟩
    · rw [value]
      simp [Memory.getElem_read]

theorem Core.fetch_eq_error_iff {core : Core} {fault : Fault} :
    core.fetch = .error fault ↔
      Memory.size < core.pc.toNat + 2
        ∧ fault = .addressOutOfRange (max (UInt16.ofNat Memory.size) core.pc) := by
  rw [fetch, Except.map_eq_error_iff, Span.locate_eq_error_iff]

namespace Machine

/-- The machine with a word remembered as fetched. -/
def latch (machine : Machine) (word : Word) : Machine :=
  { machine with core := { machine.core with opcode := word } }

@[simp] theorem settings_latch (machine : Machine) (word : Word) :
    (machine.latch word).settings = machine.settings := rfl

@[simp] theorem supply_latch (machine : Machine) (word : Word) (instruction : Instruction) :
    (machine.latch word).supply instruction = machine.supply instruction := rfl

/-- The reports that a step can give. -/
inductive Turn (machine : Machine) : Report Machine StepResult → Prop where
  | stopped (idle : machine.core.control ≠ .running) :
      Turn machine { value := .stopped, after := machine }
  | unfetched (running : machine.core.control = .running) (fault : Fault)
      (refused : machine.core.fetch = .error fault) :
      Turn machine (machine.fail fault)
  | undecoded (running : machine.core.control = .running) (word : Word)
      (fetched : machine.core.fetch = .ok word)
      (unknown : Instruction.decode? word = none) :
      Turn machine ((machine.latch word).fail (.unknownInstruction word))
  | unexecuted (running : machine.core.control = .running) (word : Word)
      (instruction : Instruction) (fault : Fault)
      (fetched : machine.core.fetch = .ok word)
      (decoded : Instruction.decode? word = some instruction)
      (refused : instruction.execute machine.settings.dialect
        (machine.supply instruction).1 (machine.latch word).core = .error fault) :
      Turn machine ((machine.latch word).fail fault)
  | waiting (running : machine.core.control = .running) (word : Word)
      (instruction : Instruction)
      (fetched : machine.core.fetch = .ok word)
      (decoded : Instruction.decode? word = some instruction)
      (waits : instruction.execute machine.settings.dialect
        (machine.supply instruction).1 (machine.latch word).core = .ok .awaitingKey) :
      Turn machine { value := .awaitingKey, after := machine.latch word }
  | executed (running : machine.core.control = .running) (word : Word)
      (instruction : Instruction) (core : Core)
      (fetched : machine.core.fetch = .ok word)
      (decoded : Instruction.decode? word = some instruction)
      (ran : instruction.execute machine.settings.dialect
        (machine.supply instruction).1 (machine.latch word).core = .ok (.next core)) :
      Turn machine
        ((machine.latch word).finish instruction core (machine.supply instruction).2)

theorem step_of_idle {machine : Machine} (idle : machine.core.control ≠ .running) :
    machine.step = { value := .stopped, after := machine } := by
  rw [step, if_neg idle]

theorem step_of_fetched {machine : Machine} {word : Word}
    (running : machine.core.control = .running) (fetched : machine.core.fetch = .ok word) :
    machine.step = (machine.latch word).executeFetched := by
  rw [step, if_pos running, fetched]
  rfl

theorem executeFetched_of_decoded {machine : Machine} {instruction : Instruction}
    (decoded : Instruction.decode? machine.core.opcode = some instruction) :
    machine.executeFetched =
      match instruction.execute machine.settings.dialect
        (machine.supply instruction).1 machine.core with
      | .error fault => machine.fail fault
      | .ok (.next core) => machine.finish instruction core (machine.supply instruction).2
      | .ok .awaitingKey => { value := .awaitingKey, after := machine } := by
  unfold executeFetched
  split
  case h_1 fault refused =>
    rw [Instruction.decode, decoded] at refused
    cases refused
  case h_2 other found =>
    rw [Instruction.decode, decoded] at found
    cases found
    rfl

theorem executeFetched_of_unknown {machine : Machine}
    (unknown : Instruction.decode? machine.core.opcode = none) :
    machine.executeFetched = machine.fail (.unknownInstruction machine.core.opcode) := by
  simp only [executeFetched, Instruction.decode, unknown]

/-- A step gives one of the reports of `Turn`. -/
theorem turn_step (machine : Machine) : machine.Turn machine.step := by
  by_cases running : machine.core.control = .running
  · cases fetched : machine.core.fetch with
    | error fault =>
      rw [step, if_pos running, fetched]
      exact .unfetched running fault fetched
    | ok word =>
      rw [step_of_fetched running fetched]
      cases decoded : Instruction.decode? word with
      | none =>
        rw [executeFetched_of_unknown decoded]
        exact .undecoded running word fetched decoded
      | some instruction =>
        rw [executeFetched_of_decoded decoded]
        split
        case h_1 fault refused =>
          exact .unexecuted running word instruction fault fetched decoded refused
        case h_2 core ran => exact .executed running word instruction core fetched decoded ran
        case h_3 waits => exact .waiting running word instruction fetched decoded waits
  · rw [step_of_idle running]
    exact .stopped running

/-- What is known at the end of a turn determines the step. -/
theorem Turn.step_eq {machine : Machine} {report : Report Machine StepResult}
    (turn : machine.Turn report) : machine.step = report := by
  cases turn with
  | stopped idle => exact step_of_idle idle
  | unfetched running fault refused => rw [step, if_pos running, refused]
  | undecoded running word fetched unknown =>
    rw [step_of_fetched running fetched, executeFetched_of_unknown unknown]
    rfl
  | unexecuted running word instruction fault fetched decoded refused =>
    rw [step_of_fetched running fetched, executeFetched_of_decoded decoded,
      settings_latch, supply_latch, refused]
  | waiting running word instruction fetched decoded waits =>
    rw [step_of_fetched running fetched, executeFetched_of_decoded decoded,
      settings_latch, supply_latch, waits]
  | executed running word instruction core fetched decoded ran =>
    rw [step_of_fetched running fetched, executeFetched_of_decoded decoded,
      settings_latch, supply_latch, ran]

/-- A step never changes whether the machine runs. -/
@[simp] theorem control_step (machine : Machine) :
    machine.step.after.core.control = machine.core.control := by
  have turn := machine.turn_step
  generalize machine.step = report at turn ⊢
  cases turn with
  | executed running word instruction core fetched decoded ran =>
    exact (effect_of_execute ran).control_eq
  | _ => rfl

/-- An executed instruction ran on the core with its word remembered. -/
theorem ran_of_executed {machine : Machine} {instruction : Instruction}
    (executed : machine.step.value = .executed instruction) :
    ∃ word, machine.core.fetch = .ok word ∧ Instruction.decode? word = some instruction ∧
      instruction.execute machine.settings.dialect (machine.supply instruction).1
        (machine.latch word).core = .ok (.next machine.step.after.core) := by
  have turn := machine.turn_step
  generalize machine.step = report at turn executed ⊢
  cases turn with
  | executed running word instruction core fetched decoded ran =>
    cases executed
    exact ⟨word, fetched, decoded, ran⟩
  | _ => cases executed

/-- So it had its effect on that core. -/
theorem effect_of_executed {machine : Machine} {instruction : Instruction}
    (executed : machine.step.value = .executed instruction) :
    ∃ word, machine.core.fetch = .ok word ∧ Instruction.decode? word = some instruction ∧
      Effect machine.settings.dialect (machine.latch word).core instruction
        machine.step.after.core := by
  obtain ⟨word, fetched, decoded, ran⟩ := ran_of_executed executed
  exact ⟨word, fetched, decoded, effect_of_execute ran⟩

@[simp] theorem settings_step (machine : Machine) :
    machine.step.after.settings = machine.settings := by
  have turn := machine.turn_step
  generalize machine.step = report at turn ⊢
  cases turn <;> rfl

end Machine

end ChipEight
