import ChipEight.Proofs.Instruction.WriteSet
import ChipEight.Proofs.Machine.Host
/-!
# Writes of a run

The write sets of instructions carried over to runs: a byte of memory that differs behind
a run was written by an instruction that the run executed, and the keypad is the one that
the host has set.

## Main definitions

- `Command.loads`, `Command.keypadAfter` — the commands that put a program into memory, and
  what a command makes of the keypad

## Main statements

- `Machine.StepRun.exists_stores`, `Machine.exists_stores_of_memory_ne` — the instruction that
  wrote a byte
- `Machine.keypad_performAll` — the keypad behind a run
- `Machine.writes_confined` — the write sets of instructions and of runs
-/

namespace ChipEight

/-- Whether a command puts a program into memory. -/
def Command.loads : Command → Bool
  | .load _ | .loadFrom _ => true
  | _ => false

/-- The keypad behind a command of the host. -/
def Command.keypadAfter (keypad : Keypad) : Command → Keypad
  | .press key => keypad.press key
  | .release key => keypad.release key
  | .setKeys keys => keys
  | .reset | .apply .reset => Keypad.released
  | _ => keypad

namespace Machine

variable {machine last : Machine} {others : List Machine} {address : Nat}

/-- A step that changes a byte of memory executes an instruction that writes it. -/
theorem exists_stores_of_step (h : address < Memory.size)
    (changed : machine.step.after.core.memory[address] ≠ machine.core.memory[address]) :
    ∃ instruction, machine.step.value = .executed instruction ∧
      instruction.Stores machine.core.index address := by
  have turn := machine.turn_step
  generalize machine.step = report at turn changed ⊢
  cases turn with
  | executed running word instruction core fetched decoded ran =>
    exact ⟨instruction, rfl, (effect_of_execute ran).stores_of_memory_ne h changed⟩
  | _ => exact absurd rfl changed

theorem StepRun.exists_stores (run : StepRun machine others last) (h : address < Memory.size)
    (changed : last.core.memory[address] ≠ machine.core.memory[address]) :
    ∃ start ∈ others, ∃ instruction, start.step.value = .executed instruction ∧
      instruction.Stores start.core.index address := by
  induction run with
  | nil machine => exact absurd rfl changed
  | @cons machine last others rest ih =>
    by_cases same : machine.step.after.core.memory[address] = machine.core.memory[address]
    · -- the first step left the byte alone, so a later one wrote it
      rw [← same] at changed
      obtain ⟨start, member, written⟩ := ih changed
      exact ⟨start, List.mem_cons_of_mem _ member, written⟩
    · exact ⟨machine, List.mem_cons_self, exists_stores_of_step h same⟩

/-- Without a step and a load nothing changes memory. -/
theorem memory_perform_of_host {command : Command} (no_step : command.takesSteps = false)
    (no_load : command.loads = false) :
    (machine.perform command).after.core.memory = machine.core.memory := by
  have act := machine.hostAct_perform no_step
  generalize (machine.perform command).after = after at act ⊢
  cases act with
  | load program memory => cases no_load
  | loadFrom source memory => cases no_load
  | _ => rfl

/-- A byte of memory that differs behind a run without loads was written by an instruction
that the run executed. -/
theorem exists_stores_of_memory_ne {commands : List Command}
    (no_load : ∀ command ∈ commands, command.loads = false) (h : address < Memory.size)
    (changed : (machine.performAll commands).after.core.memory[address]
      ≠ machine.core.memory[address]) :
    ∃ start ∈ machine.starts commands, ∃ instruction,
      start.step.value = .executed instruction ∧
        instruction.Stores start.core.index address := by
  induction commands generalizing machine with
  | nil => exact absurd rfl changed
  | cons command rest ih =>
    by_cases same :
        (machine.perform command).after.core.memory[address] = machine.core.memory[address]
    · rw [← same] at changed
      obtain ⟨start, member, written⟩ :=
        ih (fun other member => no_load other (List.mem_cons_of_mem _ member)) changed
      exact ⟨start, List.mem_append_right _ member, written⟩
    · cases steps : command.takesSteps with
      | false =>
        have kept : (machine.perform command).after.core.memory = machine.core.memory :=
          memory_perform_of_host steps (no_load command List.mem_cons_self)
        exact absurd (by rw [kept]) same
      | true =>
        obtain ⟨last, delay, sound, run, after⟩ := after_perform_of_takesSteps steps machine
        rw [after] at same
        obtain ⟨start, member, written⟩ := run.exists_stores h same
        exact ⟨start, List.mem_append_left _ member, written⟩

theorem keypad_step (machine : Machine) :
    machine.step.after.core.keypad = machine.core.keypad := by
  have turn := machine.turn_step
  generalize machine.step = report at turn ⊢
  cases turn with
  | executed running word instruction core fetched decoded ran =>
    exact (effect_of_execute ran).keypad_eq
  | _ => rfl

theorem StepRun.keypad_eq (run : StepRun machine others last) :
    last.core.keypad = machine.core.keypad := by
  induction run with
  | nil machine => rfl
  | @cons machine _ _ rest ih => exact ih.trans (keypad_step machine)

/-- A command that takes no step makes of the keypad what the host asks for. -/
theorem keypad_perform_of_host {command : Command} (no_step : command.takesSteps = false)
    (machine : Machine) :
    (machine.perform command).after.core.keypad
      = command.keypadAfter machine.core.keypad := by
  have act := machine.hostAct_perform no_step
  generalize (machine.perform command).after = after at act ⊢
  cases act with
  | control intent no_reset =>
    cases intent with
    | reset => exact absurd rfl no_reset
    | _ => rfl
  | _ => rfl

theorem keypad_perform (machine : Machine) (command : Command) :
    (machine.perform command).after.core.keypad
      = command.keypadAfter machine.core.keypad := by
  cases steps : command.takesSteps with
  | false => exact keypad_perform_of_host steps machine
  | true =>
    have untouched : command.keypadAfter machine.core.keypad = machine.core.keypad := by
      cases command with
      | step => rfl
      | runFrame => rfl
      | _ => cases steps
    obtain ⟨last, delay, sound, run, after⟩ := after_perform_of_takesSteps steps machine
    rw [after, untouched]
    exact run.keypad_eq

/-- The keypad behind a run is the one that the host has made. -/
theorem keypad_performAll (machine : Machine) (commands : List Command) :
    (machine.performAll commands).after.core.keypad
      = commands.foldl Command.keypadAfter machine.core.keypad := by
  induction commands generalizing machine with
  | nil => rfl
  | cons command rest ih => rw [List.foldl_cons, ← keypad_perform, ← ih, performAll]

/-- An instruction that ran has left alone all that is outside its write set. Over a run
without loads a byte of memory changes only where an executed instruction stored it, and
over any run the keypad is what the host has made of it. -/
theorem writes_confined :
    (∀ (dialect : Dialect) (byte : Byte) (core after : Core) (instruction : Instruction),
      instruction.execute dialect byte core = .ok (.next after) →
        WriteSet dialect core instruction after) ∧
    ∀ (machine : Machine) (commands : List Command),
      ((∀ command ∈ commands, command.loads = false) →
        ∀ address (h : address < Memory.size),
          (machine.performAll commands).after.core.memory[address]
              ≠ machine.core.memory[address] →
            ∃ start ∈ machine.starts commands, ∃ instruction,
              start.step.value = .executed instruction ∧
                instruction.Stores start.core.index address) ∧
      (machine.performAll commands).after.core.keypad
        = commands.foldl Command.keypadAfter machine.core.keypad := by
  refine ⟨fun _ _ _ _ _ ran => writeSet_of_execute ran, fun machine commands => ⟨?_, ?_⟩⟩
  · intro no_load address h changed
    exact exists_stores_of_memory_ne no_load h changed
  · exact keypad_performAll machine commands

end Machine

end ChipEight
