import ChipEight.Machine.Basic
import ChipEight.Instruction.Encoding
import ChipEight.Instruction.Execution
/-!
# Steps

One turn of the machine: a word is fetched, decoded and executed.

## Main definitions

- `StepResult` — what a step amounted to
- `Machine.step` — one turn
- `Machine.steps` — several turns, whatever they amount to

## Design notes

A failing instruction is skipped: the program counter moves on by one
instruction and everything else stays as it was when the failure showed, except
that a word which was fetched is remembered as fetched. So the machine always
gets on; even where nothing can be fetched, the program counter moves on until
it wraps around to zero.
-/

namespace ChipEight

/-- What a step amounted to. -/
inductive StepResult where
  | executed (instruction : Instruction)
  /-- The instruction waits for a key and comes up again in the next step. -/
  | awaitingKey
  | stopped
  | failed (fault : Fault)
  deriving DecidableEq, Repr

namespace Machine

/-- The random byte for an instruction and the stream behind it. Only an
instruction that uses the byte takes a word from the stream. -/
def supply (machine : Machine) (instruction : Instruction) : Byte × WordStream :=
  if instruction.drawsRandom then (machine.random.byte, machine.random.advance)
  else (0, machine.random)

def fail (machine : Machine) (fault : Fault) : Report Machine StepResult where
  value := .failed fault
  after := { machine with core := machine.core.next }

def finish (machine : Machine) (instruction : Instruction) (core : Core) (random : WordStream) :
    Report Machine StepResult where
  value := .executed instruction
  after := { machine with core, random }
  events := #[.executed machine.core.pc
    ⟨machine.core.opcode, instruction, core.pc, core.index, core.registers⟩]

def executeFetched (machine : Machine) : Report Machine StepResult :=
  match Instruction.decode machine.core.opcode with
  | .error fault => machine.fail fault
  | .ok instruction =>
    -- a failed instruction has not used its random byte, so `machine` keeps its stream
    let (byte, random) := machine.supply instruction
    match instruction.execute machine.settings.dialect byte machine.core with
    | .error fault => machine.fail fault
    | .ok (.next core) => machine.finish instruction core random
    | .ok .awaitingKey => { value := .awaitingKey, after := machine }

/-- Fetches, decodes and executes one instruction, if the machine is running. -/
def step (machine : Machine) : Report Machine StepResult :=
  if machine.core.control = .running then
    match machine.core.fetch with
    | .error fault => machine.fail fault
    | .ok word => { machine with core := { machine.core with opcode := word } }.executeFetched
  else
    { value := .stopped, after := machine }

def steps : Nat → Machine → Machine
  | 0, machine => machine
  | n + 1, machine => steps n machine.step.after

end Machine

end ChipEight
