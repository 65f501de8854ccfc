import ChipEight.Proofs.Instruction.Encoding
import ChipEight.Proofs.Machine.Log
/-!
# Tracing

A step that executes an instruction is traced with a line of text. A word of code has one
instruction, so two such lines are the same if they show the same word and left the same program
counter, index and registers.

## Main statements

- `Machine.trace_unambiguous` — the texts of instructions and of trace lines
-/

namespace ChipEight

namespace Machine

/-- The texts of instructions and of the lines that tell of them.

No two instructions have the same text, and none has a text of more than sixteen characters, so
every trace line is written in the same 103 columns. Of lines whose instructions are decoded from
their words, two have the same text exactly if they agree in word, program counter, index and
registers. Such a line is reported by every step that executes an instruction, with the program
counter, the index and the registers that it leaves. -/
theorem trace_unambiguous :
    (∀ first second : Instruction, first.text = second.text ↔ first = second) ∧
    (∀ instruction : Instruction, instruction.text.length ≤ 16) ∧
    (∀ line : TraceLine, line.Shown line.text) ∧
    (∀ first second : TraceLine,
      Instruction.decode first.opcode = .ok first.instruction →
      Instruction.decode second.opcode = .ok second.instruction →
      (first.text = second.text ↔
        first.opcode = second.opcode ∧ first.pc = second.pc ∧ first.index = second.index ∧
          first.registers = second.registers)) ∧
    ∀ machine : Machine, ∀ instruction, machine.step.value = .executed instruction →
      ∃ line : TraceLine, machine.step.events = #[.executed machine.core.pc line] ∧
        machine.core.fetch = .ok line.opcode ∧
        Instruction.decode line.opcode = .ok line.instruction ∧
        line.instruction = instruction ∧ line.pc = machine.step.after.core.pc ∧
        line.index = machine.step.after.core.index ∧
        line.registers = machine.step.after.core.registers := by
  refine ⟨fun _ _ => Instruction.text_inj, Instruction.length_text_le, TraceLine.shown_text,
    fun first second decoded decoded' => ⟨fun same => ?_, ?_⟩,
    fun machine instruction executed => ?_⟩
  · have shown := first.shown_text
    rw [same] at shown
    exact shown.unique second.shown_text
  · rintro ⟨opcode, pc, index, registers⟩
    rw [opcode, decoded'] at decoded
    have instruction : second.instruction = first.instruction := Except.ok.inj decoded
    rw [TraceLine.text, opcode, ← instruction, pc, index, registers, TraceLine.text]
  · obtain ⟨fetched, decoded⟩ := fetch_of_executed executed
    exact ⟨_, events_step_of_executed executed, fetched, Instruction.decode_eq_ok_iff.mpr decoded,
      rfl, rfl, rfl, rfl⟩

/-- Two words whose last digit is ignored have one instruction, and their lines differ in the word
alone. -/
theorem trace_unambiguous_ignored_digit :
    let line : TraceLine := ⟨0x9AB0, .skipNe 0xA 0xB, 0x204, 0x2F0, Vector.replicate 16 0xFF⟩
    let other : TraceLine := { line with opcode := 0x9AB7 }
    Instruction.decode line.opcode = .ok line.instruction ∧
      Instruction.decode other.opcode = .ok other.instruction ∧
      line.text ≠ other.text ∧ line.text.length = 103 ∧
      Text.field line.text 27 4 = "0204" ∧ Text.field line.text 100 2 = "FF" ∧
      line.instruction.text ≠ (Instruction.skipNe 0xB 0xA).text := by
  intro line other
  obtain ⟨instructions, -, lines, texts, -⟩ := trace_unambiguous
  have decoded : Instruction.decode line.opcode = .ok line.instruction := by decide
  have decoded' : Instruction.decode other.opcode = .ok other.instruction := by decide
  have pc : Text.hex 4 line.pc.toNat = "0204" := by decide
  have last : Text.hex 2 (line.registers.get 0xF).toNat = "FF" := by decide
  refine ⟨decoded, decoded', ?_, (lines line).length, (lines line).pc.trans pc,
    ((lines line).registers 0xF).trans last, ?_⟩
  · exact fun same => absurd ((texts line other decoded decoded').mp same).1 (by decide)
  · exact fun same => absurd ((instructions _ _).mp same) (by decide)

end Machine

end ChipEight
