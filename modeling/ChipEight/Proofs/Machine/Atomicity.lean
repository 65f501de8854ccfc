import ChipEight.Proofs.Machine.Turn
/-!
# Failing steps

A step that does not run its instruction leaves no trace of the attempt: a failure
moves the program counter on, a fetched word is remembered, and that is all.

## Main definitions

- `Core.Latches` — the word remembered behind a step, by the bytes that it stands in
- `Core.latched` — that word

## Main statements

- `Core.latches_latched`, `Core.Latches.unique` — there is one such word
- `Machine.step_atomic` — the machine behind a step that ran nothing
-/

namespace ChipEight

namespace Core

/-- The word is the one at the program counter, or the one remembered before where its
two bytes do not lie in memory. -/
structure Latches (core : Core) (word : Word) : Prop where
  inside : core.pc.toNat + 2 ≤ Memory.size → core.memory.HoldsWord core.pc word
  outside : Memory.size < core.pc.toNat + 2 → word = core.opcode

/-- The word remembered behind a step. -/
def latched (core : Core) : Word :=
  if inside : core.pc.toNat + 2 ≤ Memory.size then
    UInt16.ofNat
      (core.memory[core.pc.toNat].toNat * 256 + core.memory[core.pc.toNat + 1].toNat)
  else core.opcode

theorem latches_latched (core : Core) : core.Latches core.latched := by
  constructor
  · intro inside
    have high := core.memory[core.pc.toNat].toNat_lt
    have low := core.memory[core.pc.toNat + 1].toNat_lt
    refine ⟨inside, ?_⟩
    rw [latched, dif_pos inside, UInt16.toNat_ofNat_of_lt' (by show _ < 65536; omega)]
  · intro outside
    rw [latched, dif_neg (Nat.not_le.mpr outside)]

theorem Latches.unique {core : Core} {word other : Word} (latches : core.Latches word)
    (latches' : core.Latches other) : word = other := by
  rcases Nat.lt_or_ge Memory.size (core.pc.toNat + 2) with outside | inside
  · rw [latches.outside outside, latches'.outside outside]
  · exact (latches.inside inside).unique (latches'.inside inside)

theorem latched_of_fetched {core : Core} {word : Word} (fetched : core.fetch = .ok word) :
    core.latched = word := by
  have holds := fetch_eq_ok_iff_holdsWord.mp fetched
  exact (core.latches_latched.inside holds.1).unique holds

theorem latched_of_unfetched {core : Core} {fault : Fault} (refused : core.fetch = .error fault) :
    core.latched = core.opcode :=
  core.latches_latched.outside (fetch_eq_error_iff.mp refused).1

end Core

/-- An instruction that fails asked for no random byte. -/
theorem Instruction.drawsRandom_of_execute_eq_error {dialect : Dialect} {byte : Byte} {core : Core}
    {instruction : Instruction} {fault : Fault}
    (refused : instruction.execute dialect byte core = .error fault) :
    instruction.drawsRandom = false := by
  cases instruction with
  | random x mask => cases refused
  | _ => rfl

namespace Machine

variable {machine : Machine}

theorem after_step_of_failed {fault : Fault} (failed : machine.step.value = .failed fault) :
    machine.step.after = { machine with core := { machine.core with
      pc := machine.core.pc + 2
      opcode := machine.core.latched } } := by
  have turn := machine.turn_step
  generalize machine.step = report at turn failed ⊢
  cases turn with
  | unfetched running fault refused => rw [Core.latched_of_unfetched refused]; rfl
  | undecoded running word fetched unknown => rw [Core.latched_of_fetched fetched]; rfl
  | unexecuted running word instruction fault fetched decoded refused =>
    rw [Core.latched_of_fetched fetched]
    rfl
  | _ => cases failed

theorem after_step_of_awaitingKey (awaiting : machine.step.value = .awaitingKey) :
    machine.step.after = machine.latch machine.core.latched := by
  have turn := machine.turn_step
  generalize machine.step = report at turn awaiting ⊢
  cases turn with
  | waiting running word instruction fetched decoded waits =>
    rw [Core.latched_of_fetched fetched]
  | _ => cases awaiting

theorem after_step_of_stopped (stopped : machine.step.value = .stopped) :
    machine.step.after = machine := by
  have turn := machine.turn_step
  generalize machine.step = report at turn stopped ⊢
  cases turn with
  | stopped idle => rfl
  | _ => cases stopped

/-- A running machine remembers the word that it fetches, whatever comes of it. -/
theorem opcode_step (running : machine.core.control = .running) :
    machine.step.after.core.opcode = machine.core.latched := by
  have turn := machine.turn_step
  generalize machine.step = report at turn ⊢
  cases turn with
  | stopped idle => exact absurd running idle
  | unfetched running fault refused => exact (Core.latched_of_unfetched refused).symm
  | executed running word instruction core fetched decoded ran =>
    rw [Core.latched_of_fetched fetched]
    exact (effect_of_execute ran).opcode_eq
  | undecoded _ _ fetched _ | unexecuted _ _ _ _ fetched _ _ | waiting _ _ _ fetched _ _ =>
    exact (Core.latched_of_fetched fetched).symm

/-- Behind a failure the machine differs in the program counter and the word
remembered, behind a wait in the word remembered, and behind a step that did not
take place in nothing. The word remembered is the one at the program counter, as long
as its two bytes lie in memory. The random words are part of the machine; an
instruction that fails asked for none. -/
theorem step_atomic (machine : Machine) :
    machine.core.Latches machine.core.latched ∧
    (∀ fault, machine.step.value = .failed fault →
      machine.step.after = { machine with core := { machine.core with
        pc := machine.core.pc + 2
        opcode := machine.core.latched } }) ∧
    (machine.step.value = .awaitingKey →
      machine.step.after = { machine with core := { machine.core with
        opcode := machine.core.latched } }) ∧
    (machine.step.value = .stopped → machine.step.after = machine) ∧
    (∀ (instruction : Instruction) (dialect : Dialect) (byte : Byte) (core : Core) (fault : Fault),
      instruction.execute dialect byte core = .error fault →
        (machine.supply instruction).2 = machine.random) := by
  refine ⟨machine.core.latches_latched, fun _ => after_step_of_failed, after_step_of_awaitingKey,
    after_step_of_stopped, ?_⟩
  intro instruction dialect byte core fault refused
  have quiet := Instruction.drawsRandom_of_execute_eq_error refused
  simp [supply, quiet]

end Machine

end ChipEight
