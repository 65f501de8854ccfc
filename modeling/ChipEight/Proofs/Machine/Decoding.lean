import ChipEight.Proofs.Instruction.Encoding
import ChipEight.Proofs.Machine.Fault
/-!
# Decoding what was fetched

A step decodes the word that stands at the program counter, and decoding a word keeps all that the
word says: the instruction and its operands give the word back, up to the nibble that decoding
ignores.

## Main statements

- `Machine.decode_of_executed`, `Machine.failed_of_undecoded` — a step and the word that it finds
- `Machine.decodes_exactly` — decoding against encoding, for all words and all instructions
-/

namespace ChipEight

namespace Machine

variable {machine : Machine} {word : Word} {instruction : Instruction} {fault : Fault}

theorem decode_of_executed (holds : machine.core.memory.HoldsWord machine.core.pc word)
    (executed : machine.step.value = .executed instruction) :
    Instruction.decode word = .ok instruction := by
  obtain ⟨other, fetched, decoded, -⟩ := effect_of_executed executed
  rw [Core.fetch_eq_ok_iff_holdsWord.mpr holds] at fetched
  cases fetched
  exact Instruction.decode_eq_ok_iff.mpr decoded

theorem failed_of_undecoded (running : machine.core.control = .running)
    (holds : machine.core.memory.HoldsWord machine.core.pc word)
    (refused : Instruction.decode word = .error fault) :
    machine.step.value = .failed fault := by
  obtain ⟨unknown, rfl⟩ := Instruction.decode_eq_error_iff.mp refused
  exact failed_of_stepFault running (.undecoded word holds
    (Instruction.decode?_eq_none_iff.mp unknown))

/-- Decoding and encoding are inverse to one another, as far as they can be. Every instruction is
decoded from its word, except the two routines whose words are those of `clear` and `ret`. A word
that is decoded is the word of its instruction, except that the last nibble of the families `5xy_`
and `9xy_` is lost; so no other words stand for the same instruction. All words that are neither of
these families nor the word of an instruction are refused, each by its own name. A running machine
decodes the word that its memory holds at the program counter, high byte first. -/
theorem decodes_exactly :
    (∀ instruction : Instruction, instruction ≠ .sys 0x0E0 → instruction ≠ .sys 0x0EE →
      Instruction.decode instruction.encode = .ok instruction) ∧
    (∀ word instruction, Instruction.decode word = .ok instruction →
      instruction.encode
        = if word.group = 0x5 ∨ word.group = 0x9 then .ofNibbles word.group word.x word.y 0x0
          else word) ∧
    (∀ word fault, Instruction.decode word = .error fault ↔
      ((∀ instruction : Instruction, instruction.encode ≠ word) ∧
        word.group ≠ 0x5 ∧ word.group ≠ 0x9) ∧ fault = .unknownInstruction word) ∧
    (∀ word instruction, Instruction.decode word = .ok instruction → ∀ other,
      Instruction.decode other = .ok instruction ↔
        other = word ∨ ((word.group = 0x5 ∨ word.group = 0x9) ∧
          other.group = word.group ∧ other.x = word.x ∧ other.y = word.y)) ∧
    ∀ machine : Machine, machine.core.control = .running → ∀ high low,
      machine.core.memory[machine.core.pc.toNat]? = some high →
      machine.core.memory[machine.core.pc.toNat + 1]? = some low →
      ∃ word : Word, word.toNat = high.toNat * 256 + low.toNat ∧
        machine.core.fetch = .ok word ∧
        (∀ instruction, machine.step.value = .executed instruction →
          Instruction.decode word = .ok instruction) ∧
        ∀ fault, Instruction.decode word = .error fault → machine.step.value = .failed fault := by
  refine ⟨fun instruction clear ret => ?_, fun word instruction decoded => ?_,
    fun word fault => ?_, fun word instruction decoded other => ?_,
    fun machine running high low first second => ?_⟩
  · exact Instruction.decode_eq_ok_iff.mpr (Instruction.decode?_encode ⟨clear, ret⟩)
  · exact Instruction.encode_of_decode? (Instruction.decode_eq_ok_iff.mp decoded)
  · rw [Instruction.decode_eq_error_iff, Instruction.decode?_eq_none_iff_encode_ne]
  · rw [Instruction.decode_eq_ok_iff]
    exact Instruction.decode?_congr_iff (Instruction.decode_eq_ok_iff.mp decoded)
  · have value := Word.toNat_ofBytes high low
    have holds := Memory.holdsWord_of_bytes first second value
    exact ⟨.ofBytes high low, value, Core.fetch_eq_ok_iff_holdsWord.mpr holds,
      fun _ => decode_of_executed holds, fun _ => failed_of_undecoded running holds⟩

/-- The word `0x9AB7` stands for the same instruction as `0x9AB0`. No other word stands for the
instruction of `0x8AB7`, and `0x8AB8` stands for none. -/
theorem decodes_exactly_beside_ignored_nibble :
    Instruction.decode 0x9AB7 = .ok (.skipNe 0xA 0xB) ∧
      (Instruction.skipNe 0xA 0xB).encode = 0x9AB0 ∧
      Instruction.decode 0x9AB0 = .ok (.skipNe 0xA 0xB) ∧
      (∀ other, Instruction.decode other = .ok (.operate .subFrom 0xA 0xB) → other = 0x8AB7) ∧
      ∀ instruction : Instruction, instruction.encode ≠ 0x8AB8 := by
  obtain ⟨inverse, canonical, refused, same, -⟩ := decodes_exactly
  have read : ¬ ((0x8AB7 : Word).group = 0x5 ∨ (0x8AB7 : Word).group = 0x9) := by decide
  refine ⟨rfl, canonical 0x9AB7 _ rfl, inverse (.skipNe 0xA 0xB) (by decide) (by decide),
    fun other decoded => ?_, ((refused 0x8AB8 _).mp rfl).1.1⟩
  rcases (same 0x8AB7 _ rfl other).mp decoded with equal | ⟨ignored, -⟩
  · exact equal
  · exact absurd ignored read

end Machine

end ChipEight
