import ChipEight.Machine.Event
import ChipEight.Proofs.Instruction.Assembly
/-!
# Trace lines

The line that tells of an executed instruction has its parts in fixed columns, so they can be read
off it.

## Main definitions

- `TraceLine.Shown` — a text with the parts of a line in their columns

## Main statements

- `TraceLine.shown_text` — every line is written so
- `TraceLine.Shown.unique` — and can be told from what is written
-/

namespace ChipEight

namespace TraceLine

/-- The text has the parts of the line in their columns: the word, the instruction, the program
counter, the index and the registers, with fixed marks between them. -/
structure Shown (line : TraceLine) (text : String) : Prop where
  length : text.length = 103
  opcode : Text.field text 0 4 = Text.hex 4 line.opcode.toNat
  blank : Text.field text 4 1 = " "
  instruction : Text.field text 5 16 = Text.padRight 16 line.instruction.text
  arrow : Text.field text 21 6 = " -> pc"
  pc : Text.field text 27 4 = Text.hex 4 line.pc.toNat
  indexMark : Text.field text 31 2 = " i"
  index : Text.field text 33 4 = Text.hex 4 line.index.toNat
  registersMark : Text.field text 37 3 = " v["
  registers : ∀ r : Register,
    Text.field text (40 + 4 * r.val) 2 = Text.hex 2 (line.registers.get r).toNat
  comma : ∀ r : Register, r < 15 → Text.field text (42 + 4 * r.val) 2 = ", "
  bracket : Text.field text 102 1 = "]"

/-- The texts of the registers, which have two digits each. -/
def registerTexts (line : TraceLine) : List String :=
  line.registers.toList.map fun v => Text.hex 2 v.toNat

variable {line other : TraceLine} {text : String}

theorem length_of_mem_registerTexts : ∀ part ∈ line.registerTexts, part.length = 2 := by
  intro part member
  obtain ⟨v, -, rfl⟩ := List.mem_map.mp member
  exact Text.length_hex 2 v.toNat

theorem length_registerTexts (line : TraceLine) : line.registerTexts.length = 16 := by
  rw [registerTexts, List.length_map, Vector.length_toList]

theorem length_padRight (line : TraceLine) :
    (Text.padRight 16 line.instruction.text).length = 16 := by
  have := line.instruction.length_text_le
  rw [Text.padRight, String.length_ofList, List.length_rightpad, String.length_toList]
  omega

/-- Two digits and what stands between them take four columns for each register but the last. -/
theorem length_registers (line : TraceLine) :
    (String.intercalate ", " line.registerTexts).length = 62 := by
  have comma : ", ".length = 2 := rfl
  have some : line.registerTexts ≠ [] :=
    List.ne_nil_of_length_pos (by rw [length_registerTexts]; decide)
  have whole := @Text.width_intercalate _ ", " _ length_of_mem_registerTexts some
  rw [comma, length_registerTexts] at whole
  exact Nat.add_right_cancel whole

theorem field_registers (line : TraceLine) (r : Register) (rest : String) :
    Text.field (String.intercalate ", " line.registerTexts ++ rest) (4 * r.val) 2
      = Text.hex 2 (line.registers.get r).toNat := by
  have lt : r.val < line.registerTexts.length := by
    rw [length_registerTexts]
    exact r.isLt
  have here := @Text.field_intercalate rest _ ", " _ r.val length_of_mem_registerTexts lt
  have part : line.registerTexts[r.val] = Text.hex 2 (line.registers.get r).toNat := by
    simp only [registerTexts, List.getElem_map, Vector.getElem_toList]
    rfl
  rw [← part, ← here, Nat.mul_comm]
  rfl

theorem field_comma (line : TraceLine) {r : Register} (lt : r < 15) (rest : String) :
    Text.field (String.intercalate ", " line.registerTexts ++ rest) (4 * r.val + 2) 2 = ", " := by
  have lt : r.val + 1 < line.registerTexts.length := by
    rw [length_registerTexts]
    exact Nat.succ_lt_succ lt
  have here := @Text.field_separator rest _ ", " _ r.val length_of_mem_registerTexts lt
  rw [Nat.mul_comm]
  exact here

/-- The parts of a line are put together as the columns have it. -/
theorem shown_text (line : TraceLine) : line.Shown line.text := by
  have parts : line.text = Text.hex 4 line.opcode.toNat ++ (" "
      ++ (Text.padRight 16 line.instruction.text ++ (" -> pc" ++ (Text.hex 4 line.pc.toNat
      ++ (" i" ++ (Text.hex 4 line.index.toNat ++ (" v["
      ++ (String.intercalate ", " line.registerTexts ++ "]")))))))) := by
    simp only [TraceLine.text, registerTexts, String.append_assoc]
  -- the widths of the parts tell where each of them begins
  have blank : " ".length = 1 := rfl
  have arrow : " -> pc".length = 6 := rfl
  have indexMark : " i".length = 2 := rfl
  have registersMark : " v[".length = 3 := rfl
  have bracket : "]".length = 1 := rfl
  have instruction := line.length_padRight
  have opcode := Text.length_hex 4 line.opcode.toNat
  have pc := Text.length_hex 4 line.pc.toNat
  have index := Text.length_hex 4 line.index.toNat
  have registers := line.length_registers
  rw [parts]
  constructor
  case length => simp only [String.length_append, *]
  case registers =>
    intro r
    have place : 40 + 4 * r.val - 4 - 1 - 16 - 6 - 4 - 2 - 4 - 3 = 4 * r.val := by omega
    simp (disch := omega) only [Text.field_append_right]
    simp only [opcode, blank, instruction, arrow, pc, indexMark, index, registersMark, place]
    exact line.field_registers r "]"
  case comma =>
    intro r lt
    have place : 42 + 4 * r.val - 4 - 1 - 16 - 6 - 4 - 2 - 4 - 3 = 4 * r.val + 2 := by omega
    simp (disch := omega) only [Text.field_append_right]
    simp only [opcode, blank, instruction, arrow, pc, indexMark, index, registersMark, place]
    exact line.field_comma lt "]"
  case bracket =>
    simp (disch := omega) only [Text.field_append_right]
    simp only [*]
    rfl
  all_goals simp (disch := omega) only [Text.field_append_left, Text.field_append_right]

/-- What a text shows is a line whose parts can be read off it, apart from the instruction. -/
theorem Shown.unique (shown : line.Shown text) (shown' : other.Shown text) :
    line.opcode = other.opcode ∧ line.pc = other.pc ∧ line.index = other.index ∧
      line.registers = other.registers := by
  refine ⟨?_, ?_, ?_, Vector.ext fun r lt => ?_⟩
  · exact Text.hex_word_inj.mp (shown.opcode.symm.trans shown'.opcode)
  · exact Text.hex_word_inj.mp (shown.pc.symm.trans shown'.pc)
  · exact Text.hex_word_inj.mp (shown.index.symm.trans shown'.index)
  · exact Text.hex_byte_inj.mp ((shown.registers ⟨r, lt⟩).symm.trans (shown'.registers ⟨r, lt⟩))

end TraceLine

end ChipEight
