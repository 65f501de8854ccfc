import ChipEight.Proofs.Machine.Equipment
import ChipEight.Proofs.Machine.Likeness
/-!
# Dialects side by side

One machine in two dialects. Whatever these disagree about, a step fails, waits, moves on and
draws in the same way in both, and at most registers and the index come out differently. Over
a run that executes nothing disputed, nothing comes out differently.

## Main definitions

- `Core.SameButData` — cores that registers and index alone tell apart
- `StepResult.disputed` — the steps that two dialects dispute
- `Machine.inDialect` — a machine in another dialect

## Main statements

- `Instruction.execute_alike_of_any_dialect` — an instruction in two dialects
- `Machine.step_inDialect` — a step in two dialects
- `Machine.coupling_inDialect` — runs in two dialects
- `Machine.dialects_confined` — what each point of the dialect decides
-/

namespace ChipEight

/-- The registers and the index alone tell the cores apart. -/
def Core.SameButData (first second : Core) : Prop :=
  second = { first with registers := second.registers, index := second.index }

namespace Core

variable {first second : Core}

theorem SameButRegisters.sameButData {changed : List Register}
    (same : SameButRegisters changed first second) : SameButData first second := by
  rw [same.1]
  rfl

namespace SameButData

theorem refl (core : Core) : SameButData core core :=
  rfl

theorem congr {α : Type} (same : SameButData first second) (view : Core → α) :
    view second = view { first with registers := second.registers, index := second.index } :=
  congrArg view same

end SameButData

theorem likeness_sameButData : Likeness SameButData where
  control same := same.congr control
  fetch same := same.congr fetch
  latch word same := by
    have latched := same.congr fun core => ({ core with opcode := word } : Core)
    exact latched
  next same := same.congr next

end Core

/-- Whether a step has executed an instruction about which two dialects disagree. -/
def StepResult.disputed (first second : Dialect) : StepResult → Bool
  | .executed instruction => instruction.disputed first second
  | _ => false

/-- In any two dialects an instruction fails, waits and moves on in the same way. -/
theorem Instruction.execute_alike_of_any_dialect (dialect other : Dialect) (byte : Byte)
    (core : Core) (instruction : Instruction) :
    Outcome.Alike Core.SameButData (instruction.execute dialect byte core)
      (instruction.execute other byte core) := by
  cases instruction with
  | operate op x y =>
    exact .ran (Core.sameButRegisters_operate_of_any dialect other op x y core).sameButData
  | store x =>
    simp only [execute, Core.store]
    cases Span.locate core.index (x.val + 1) with
    | error fault => exact .failed fault
    | ok span => exact .ran rfl
  | restore x =>
    simp only [execute, Core.restore]
    cases Span.locate core.index (x.val + 1) with
    | error fault => exact .failed fault
    | ok span => exact .ran rfl
  | _ => exact Outcome.Alike.refl Core.SameButData.refl _

namespace Machine

/-- The machine in another dialect. -/
def inDialect (machine : Machine) (dialect : Dialect) : Machine :=
  { machine with settings := { machine.settings with dialect } }

/-- In any two dialects a step comes to the same and draws the same words, and it leaves cores
that differ at most in registers and index. -/
theorem step_inDialect (machine : Machine) (dialect : Dialect) :
    (machine.inDialect dialect).step.value = machine.step.value ∧
      Core.SameButData machine.step.after.core (machine.inDialect dialect).step.after.core ∧
      (machine.inDialect dialect).step.after.random = machine.step.after.random := by
  refine step_alike Core.likeness_sameButData rfl rfl ?_
  intro word instruction _ _ _
  exact instruction.execute_alike_of_any_dialect _ _ _ _

/-- Whatever is done to a machine and to the same machine in another dialect comes to the same,
as long as nothing disputed is executed. -/
theorem coupling_inDialect (settings : Settings) (dialect : Dialect) :
    Coupling (Equipped settings { settings with dialect } id)
      (fun start => start.step.value.disputed settings.dialect dialect = false) id := by
  refine coupling_equipped rfl ?_ fun _ _ => rfl
  intro start given undisputed instruction executed
  rw [executed] at undisputed
  exact { undisputed := by rw [given]; exact undisputed, byte := fun _ => rfl }

theorem Equipped.eq_inDialect {settings : Settings} {dialect : Dialect} {first second : Machine}
    (equipped : Equipped settings { settings with dialect } id first second) :
    second = first.inDialect dialect := by
  obtain ⟨rfl, rfl⟩ := equipped
  rfl

/-- What the dialect decides. Where the shifts take their operand from shows in shifts of
unequal registers alone, and there in the target and the flag; whether logic clears the flag,
in the flag behind logic; whether transfers move the index, in the index behind a transfer that
ran. Failures, waits, the program counter and the random words are the same in all dialects.
Runs in two dialects keep abreast until one of them executes what the dialects dispute. -/
theorem dialects_confined :
    (∀ (dialect : Dialect) (flag : Bool) (byte : Byte) (core : Core) (instruction : Instruction),
      let inherited := instruction.execute dialect byte core
      let shifted := instruction.execute { dialect with shiftsReadVy := flag } byte core
      let cleared := instruction.execute { dialect with logicClearsFlag := flag } byte core
      let moved := instruction.execute { dialect with transfersMoveIndex := flag } byte core
      (shifted ≠ inherited → ∃ op x y, instruction = .operate op x y ∧
        (op = .shiftRight ∨ op = .shiftLeft) ∧ core.get x ≠ core.get y ∧
        Outcome.Ran (Core.SameButRegisters [x, Register.flag]) inherited shifted) ∧
      (cleared ≠ inherited → ∃ op x y, instruction = .operate op x y ∧
        (op = .or ∨ op = .and ∨ op = .xor) ∧
        Outcome.Ran (Core.SameButRegisters [Register.flag]) inherited cleared) ∧
      (moved ≠ inherited → ∃ x, (instruction = .store x ∨ instruction = .restore x) ∧
        Outcome.Ran Core.SameButIndex inherited moved)) ∧
    (∀ (dialect other : Dialect) (byte : Byte) (core : Core) (instruction : Instruction),
      Outcome.Alike Core.SameButData (instruction.execute dialect byte core)
        (instruction.execute other byte core)) ∧
    ∀ (machine : Machine) (dialect : Dialect),
      let other := machine.inDialect dialect
      (other.step.value = machine.step.value ∧
        Core.SameButData machine.step.after.core other.step.after.core ∧
        other.step.after.random = machine.step.after.random) ∧
      ∀ commands : List Command,
        let run := machine.performAll commands
        let otherRun := other.performAll commands
        let Undisputed (start : Machine) : Prop :=
          start.step.value.disputed machine.settings.dialect dialect = false
        Abreast (fun first second => second = first.inDialect dialect) Undisputed
          (machine.starts commands) (other.starts commands) ∧
        ((∀ start ∈ machine.starts commands, Undisputed start) →
          otherRun.value = run.value ∧ otherRun.after = run.after.inDialect dialect) := by
  refine ⟨fun dialect flag byte core instruction => ⟨?_, ?_, ?_⟩, ?_, ?_⟩
  · exact Instruction.shift_of_changed
  · exact Instruction.logic_of_changed
  · exact Instruction.transfer_of_changed
  · exact Instruction.execute_alike_of_any_dialect
  · intro machine dialect other
    refine ⟨machine.step_inDialect dialect, ?_⟩
    intro commands run otherRun Undisputed
    refine ⟨?_, ?_⟩
    · exact ((coupling_inDialect machine.settings dialect).starts commands ⟨rfl, rfl⟩).imp
        Equipped.eq_inDialect
    · intro undisputed
      have like : Equipped machine.settings { machine.settings with dialect } id machine other :=
        ⟨rfl, rfl⟩
      obtain ⟨value, equipped⟩ :=
        (coupling_inDialect machine.settings dialect).performAll commands like undisputed
      rw [List.map_id, List.map_id] at value
      exact ⟨value, equipped.eq_inDialect⟩

/-- A run on which two dialects that disagree about all three points agree: it draws a random
byte, fails to store registers at the end of memory and shifts nothing. -/
theorem dialects_confined_across_failure :
    let machine := switchedOn { dialect := .modern, instructionsPerFrame := 5 } (.cycle [0x2A])
    let commands : List Command :=
      [.load [0xC1, 0xFF, 0xAF, 0xFF, 0xF1, 0x55, 0x81, 0x04, 0x12, 0x00], .runFrame, .takeFrame]
    let run := machine.performAll commands
    let other := (machine.inDialect .cosmacVip).performAll commands
    (∀ start ∈ machine.starts commands, start.step.value.disputed .modern .cosmacVip = false) ∧
      (∃ start ∈ machine.starts commands,
        start.step.value = .failed (.addressOutOfRange 0x1000)) ∧
      other.value = run.value ∧ other.after = run.after.inDialect .cosmacVip := by
  intro machine commands run other
  obtain ⟨undisputed, failed⟩ :
      (∀ start ∈ machine.starts commands,
        start.step.value.disputed .modern .cosmacVip = false) ∧
      ∃ start ∈ machine.starts commands,
        start.step.value = .failed (.addressOutOfRange 0x1000) := by decide +kernel
  obtain ⟨_, _, agree⟩ := dialects_confined
  exact ⟨undisputed, failed, ((agree machine .cosmacVip).2 commands).2 undisputed⟩

end Machine

end ChipEight
