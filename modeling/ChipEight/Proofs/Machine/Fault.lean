import ChipEight.Proofs.Instruction.Form
import ChipEight.Proofs.Machine.Batch
/-!
# Faults of a step

Which fault a step raises, told from what stands in memory at the program counter, and
from the program counter, the index and the stack pointer. Nothing else of the machine
decides whether a step fails, or how.

## Main definitions

- `StepFault` — the faults, each with the condition under which it is raised

## Main statements

- `Machine.value_step_eq_failed_iff` — a step fails where its fetch, its decoding or its
  instruction does
- `Machine.stepFault_of_failed`, `Machine.failed_of_stepFault` — the conditions are exact
- `Machine.step_fails_iff` — both directions, and what follows for two machines
-/

namespace ChipEight

theorem Word.toNat_max (v w : Word) : (max v w).toNat = max v.toNat w.toNat := by
  show (if v ≤ w then w else v).toNat = _
  split
  · next le => exact (Nat.max_eq_right (UInt16.le_iff_toNat_le.mp le)).symm
  · next gt =>
    rw [UInt16.le_iff_toNat_le] at gt
    omega

/-- The faults that a step can raise, where `pc`, `index` and `sp` are the program
counter, the index and the stack pointer before it. -/
inductive StepFault (memory : Memory) (pc index : Word) (sp : Byte) : Fault → Prop where
  | unfetched (outside : 0xFFE < pc.toNat) :
      StepFault memory pc index sp (.addressOutOfRange (max 4096 pc))
  | undecoded (word : Word) (fetched : memory.HoldsWord pc word)
      (misfit : ∀ instruction : Instruction, ¬ instruction.form.Fits word) :
      StepFault memory pc index sp (.unknownInstruction word)
  | underflow (word : Word) (fetched : memory.HoldsWord pc word) (ret : word = 0x00EE)
      (empty : sp = 0) : StepFault memory pc index sp (.stackUnderflow pc)
  | overflow (word : Word) (fetched : memory.HoldsWord pc word) (call : word.group = 0x2)
      (full : 15 ≤ sp.toNat) : StepFault memory pc index sp (.stackOverflow pc)
  | draw (word : Word) (fetched : memory.HoldsWord pc word) (draw : word.group = 0xD)
      (outside : 4096 < index.toNat + word.n.val) :
      StepFault memory pc index sp (.addressOutOfRange (max 4096 index))
  | decimal (word : Word) (fetched : memory.HoldsWord pc word)
      (decimal : word.group = 0xF ∧ word.lowByte = 0x33) (outside : 4096 < index.toNat + 3) :
      StepFault memory pc index sp (.addressOutOfRange (max 4096 index))
  | transfer (word : Word) (fetched : memory.HoldsWord pc word)
      (transfer : word.group = 0xF ∧ (word.lowByte = 0x55 ∨ word.lowByte = 0x65))
      (outside : 4096 < index.toNat + (word.x.val + 1)) :
      StepFault memory pc index sp (.addressOutOfRange (max 4096 index))

namespace Machine

variable {machine : Machine} {word : Word} {instruction : Instruction} {fault : Fault}

/-- A step fails where the fetch fails, where the word stands for no instruction, and
where the instruction is refused. -/
theorem value_step_eq_failed_iff :
    machine.step.value = .failed fault ↔
      machine.core.control = .running ∧
        (machine.core.fetch = .error fault ∨
          ∃ word, machine.core.fetch = .ok word ∧
            ((Instruction.decode? word = none ∧ fault = .unknownInstruction word) ∨
              ∃ instruction, Instruction.decode? word = some instruction ∧
                Refusal (machine.latch word).core instruction fault)) := by
  constructor
  · intro failed
    have turn := machine.turn_step
    generalize machine.step = report at turn failed
    cases turn with
    | unfetched running fault refused =>
      cases failed
      exact ⟨running, Or.inl refused⟩
    | undecoded running word fetched unknown =>
      cases failed
      exact ⟨running, Or.inr ⟨word, fetched, Or.inl ⟨unknown, rfl⟩⟩⟩
    | unexecuted running word instruction fault fetched decoded refused =>
      cases failed
      exact ⟨running, Or.inr ⟨word, fetched, Or.inr ⟨instruction, decoded,
        refusal_of_execute refused⟩⟩⟩
    | _ => cases failed
  · rintro ⟨running, refused | ⟨word, fetched, ⟨unknown, rfl⟩ | ⟨instruction, decoded, refusal⟩⟩⟩
    · rw [(Turn.unfetched running fault refused).step_eq]
      rfl
    · rw [(Turn.undecoded running word fetched unknown).step_eq]
      rfl
    · have refused : instruction.execute machine.settings.dialect
          (machine.supply instruction).1 (machine.latch word).core = .error fault :=
        execute_of_refusal refusal
      rw [(Turn.unexecuted running word instruction fault fetched decoded refused).step_eq]
      rfl

/-- An instruction that is refused behind a fetch raises one of the faults of a step. -/
theorem stepFault_of_refusal (bound : machine.core.sp.toNat ≤ 16)
    (fetched : machine.core.memory.HoldsWord machine.core.pc word)
    (decoded : Instruction.decode? word = some instruction)
    (refusal : Refusal (machine.latch word).core instruction fault) :
    StepFault machine.core.memory machine.core.pc machine.core.index machine.core.sp fault := by
  cases refusal with
  | overflow target full =>
    have full : 16 ≤ machine.core.sp.toNat + 1 := full
    exact .overflow word fetched (Instruction.decode?_eq_call_iff.mp decoded).1 (by omega)
  | underflow empty =>
    exact .underflow word fetched (Instruction.decode?_eq_ret_iff.mp decoded) empty
  | stray outside =>
    -- a return finds its call in the sixteen slots
    have outside : 16 ≤ machine.core.sp.toNat - 1 := outside
    omega
  | outside reaches outside =>
    cases instruction with
    | draw x y height =>
      cases reaches
      obtain ⟨group, -, -, rfl⟩ := Instruction.decode?_eq_draw_iff.mp decoded
      exact .draw word fetched group outside
    | decimal x =>
      cases reaches
      obtain ⟨group, low, -⟩ := Instruction.decode?_eq_decimal_iff.mp decoded
      exact .decimal word fetched ⟨group, low⟩ outside
    | store x =>
      cases reaches
      obtain ⟨group, low, rfl⟩ := Instruction.decode?_eq_store_iff.mp decoded
      exact .transfer word fetched ⟨group, Or.inl low⟩ outside
    | restore x =>
      cases reaches
      obtain ⟨group, low, rfl⟩ := Instruction.decode?_eq_restore_iff.mp decoded
      exact .transfer word fetched ⟨group, Or.inr low⟩ outside
    | _ => cases reaches

theorem stepFault_of_failed (bound : machine.core.sp.toNat ≤ 16)
    (failed : machine.step.value = .failed fault) :
    StepFault machine.core.memory machine.core.pc machine.core.index machine.core.sp fault := by
  obtain ⟨running, refused | ⟨word, fetched, cause⟩⟩ := value_step_eq_failed_iff.mp failed
  · obtain ⟨outside, rfl⟩ := Core.fetch_eq_error_iff.mp refused
    have outside : 4096 < machine.core.pc.toNat + 2 := outside
    exact .unfetched (by omega)
  · have holds := Core.fetch_eq_ok_iff_holdsWord.mp fetched
    rcases cause with ⟨unknown, rfl⟩ | ⟨instruction, decoded, refusal⟩
    · exact .undecoded word holds (Instruction.decode?_eq_none_iff.mp unknown)
    · exact stepFault_of_refusal bound holds decoded refusal

theorem failed_of_refusal (running : machine.core.control = .running)
    (holds : machine.core.memory.HoldsWord machine.core.pc word)
    (decoded : Instruction.decode? word = some instruction)
    (refusal : Refusal (machine.latch word).core instruction fault) :
    machine.step.value = .failed fault :=
  value_step_eq_failed_iff.mpr ⟨running, Or.inr ⟨word, Core.fetch_eq_ok_iff_holdsWord.mpr holds,
    Or.inr ⟨instruction, decoded, refusal⟩⟩⟩

theorem failed_of_stepFault (running : machine.core.control = .running)
    (h : StepFault machine.core.memory machine.core.pc machine.core.index machine.core.sp fault) :
    machine.step.value = .failed fault := by
  cases h with
  | unfetched outside =>
    have refused : machine.core.fetch = .error (.addressOutOfRange (max 4096 machine.core.pc)) :=
      Core.fetch_eq_error_iff.mpr ⟨show 4096 < machine.core.pc.toNat + 2 by omega, rfl⟩
    exact value_step_eq_failed_iff.mpr ⟨running, Or.inl refused⟩
  | undecoded word holds misfit =>
    exact value_step_eq_failed_iff.mpr ⟨running, Or.inr ⟨word,
      Core.fetch_eq_ok_iff_holdsWord.mpr holds,
      Or.inl ⟨Instruction.decode?_eq_none_iff.mpr misfit, rfl⟩⟩⟩
  | underflow word holds ret empty =>
    exact failed_of_refusal running holds (Instruction.decode?_eq_ret_iff.mpr ret)
      (.underflow empty)
  | overflow word holds call full =>
    exact failed_of_refusal running holds (Instruction.decode?_eq_call_iff.mpr ⟨call, rfl⟩)
      (.overflow _ (show 16 ≤ machine.core.sp.toNat + 1 by omega))
  | draw word holds draw outside =>
    exact failed_of_refusal running holds
      (Instruction.decode?_eq_draw_iff.mpr ⟨draw, rfl, rfl, rfl⟩) (.outside rfl outside)
  | decimal word holds decimal outside =>
    exact failed_of_refusal running holds
      (Instruction.decode?_eq_decimal_iff.mpr ⟨decimal.1, decimal.2, rfl⟩) (.outside rfl outside)
  | transfer word holds transfer outside =>
    obtain ⟨group, low | low⟩ := transfer
    · exact failed_of_refusal running holds
        (Instruction.decode?_eq_store_iff.mpr ⟨group, low, rfl⟩) (.outside rfl outside)
    · exact failed_of_refusal running holds
        (Instruction.decode?_eq_restore_iff.mpr ⟨group, low, rfl⟩) (.outside rfl outside)

theorem failed_iff_stepFault (running : machine.core.control = .running)
    (bound : machine.core.sp.toNat ≤ 16) :
    machine.step.value = .failed fault ↔
      StepFault machine.core.memory machine.core.pc machine.core.index machine.core.sp fault :=
  ⟨stepFault_of_failed bound, failed_of_stepFault running⟩

/-- A sprite of no rows is never refused while the index lies in memory or right
behind it. -/
theorem not_failed_of_empty_sprite
    (holds : machine.core.memory.HoldsWord machine.core.pc word) (draw : word.group = 0xD)
    (height : word.n = 0) (bound : machine.core.index.toNat ≤ 4096) :
    machine.step.value ≠ .failed fault := by
  intro failed
  have fetched := Core.fetch_eq_ok_iff_holdsWord.mpr holds
  have decoded := Instruction.decode?_eq_draw_iff.mpr ⟨draw, rfl, rfl, height⟩
  obtain ⟨-, refused | ⟨other, same, cause⟩⟩ := value_step_eq_failed_iff.mp failed
  · rw [fetched] at refused
    cases refused
  · rw [fetched] at same
    cases same
    rcases cause with ⟨unknown, -⟩ | ⟨instruction, found, refusal⟩
    · rw [decoded] at unknown
      cases unknown
    · rw [decoded] at found
      cases found
      cases refusal with
      | outside reaches outside =>
        cases reaches
        have outside : 4096 < machine.core.index.toNat + 0 := outside
        omega

/-- A running machine with at most sixteen entries on its stack fails exactly under the
conditions of `StepFault`, and with the fault that goes with the condition. So machines
that agree in memory, program counter, index and stack pointer raise the same faults,
whatever else tells them apart; and a sprite of no rows is not refused. -/
theorem step_fails_iff (running : machine.core.control = .running)
    (bound : machine.core.sp.toNat ≤ 16) :
    (∀ fault, machine.step.value = .failed fault ↔
      StepFault machine.core.memory machine.core.pc machine.core.index machine.core.sp fault) ∧
    (∀ other : Machine, other.core.control = .running →
      other.core.memory = machine.core.memory → other.core.pc = machine.core.pc →
      other.core.index = machine.core.index → other.core.sp = machine.core.sp →
      ∀ fault, other.step.value = .failed fault ↔ machine.step.value = .failed fault) ∧
    (∀ word fault, machine.core.memory.HoldsWord machine.core.pc word → word.group = 0xD →
      word.n = 0 → machine.core.index.toNat ≤ 4096 → machine.step.value ≠ .failed fault) := by
  refine ⟨fun fault => failed_iff_stepFault running bound, ?_, ?_⟩
  · intro other running' hmemory hpc hindex hsp fault
    have bound' : other.core.sp.toNat ≤ 16 := by rw [hsp]; exact bound
    rw [failed_iff_stepFault running' bound', failed_iff_stepFault running bound, hmemory, hpc,
      hindex, hsp]
  · intro word fault holds draw height inside
    exact not_failed_of_empty_sprite holds draw height inside

/-- Four registers stored three bytes before the end of memory, with every slot of the
stack taken: the fault names the first address outside. -/
theorem step_fails_one_byte_outside :
    let machine : Machine :=
      { core := { Core.fresh with
          index := 0xFFD, sp := 16, memory := overwrite Memory.fresh 0x200 [0xF3, 0x55] }
        settings := {}
        random := .cycle [] }
    machine.core.control = .running ∧ machine.core.sp.toNat ≤ 16 ∧
      machine.step.value = .failed (.addressOutOfRange 4096) ∧
      StepFault machine.core.memory machine.core.pc machine.core.index machine.core.sp
        (.addressOutOfRange 4096) := by
  intro machine
  have running : machine.core.control = .running := rfl
  have bound : machine.core.sp.toNat ≤ 16 := by decide
  have failed : machine.step.value = .failed (.addressOutOfRange 4096) := by decide +kernel
  exact ⟨running, bound, failed, ((step_fails_iff running bound).1 _).mp failed⟩

end Machine

end ChipEight
