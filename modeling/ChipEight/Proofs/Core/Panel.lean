import ChipEight.Core.Panel
import ChipEight.Proofs.Machine.Safety
import ChipEight.Proofs.Text.Numeral
import Mathlib.Data.Fintype.Basic
import Mathlib.Tactic.FinCases
/-!
# The text of a panel

A panel is shown whole: each value has its place in one of twenty-two lines, and a panel can be
told from its text. One slot of the stack is marked, the one that the stack pointer names.

## Main definitions

- `Control.Named` — the names of the control states
- `Panel.Marked` — a line with the mark of the first free slot
- `Panel.headed` — the parts of the header
- `Panel.Shown` — a text with the parts of a panel in their lines

## Main statements

- `Panel.shown_text` — every panel is written so
- `Panel.Shown.unique` — and can be told from what is written
- `Panel.text_shows_whole` — the texts of panels
-/

namespace ChipEight

/-- The name of a control state. -/
inductive Control.Named : Control → String → Prop where
  | running : Named .running "Running"
  | paused : Named .paused "Paused"
  | halted : Named .halted "Halted"

theorem Control.named_text (control : Control) : control.Named control.text := by
  cases control <;> constructor

theorem Control.Named.eq_text {control : Control} {name : String} (named : control.Named name) :
    name = control.text := by
  cases named <;> rfl

/-- No two control states have one name. -/
theorem Control.Named.unique {control other : Control} {name : String}
    (named : control.Named name) (named' : other.Named name) : control = other := by
  have same : control.text = other.text := named.eq_text.symm.trans named'.eq_text
  revert same
  cases control <;> cases other <;> decide

namespace Panel

/-- A line with the mark of the first free slot. -/
def Marked (line : String) : Prop :=
  " <- SP".toList <:+: line.toList

/-- The parts of the header, one behind the other: the word fetched last, the program counter, the
stack pointer, the index, the two timers and the name of the control state. -/
def headed (panel : Panel) (name : String) : String :=
  "OP " ++ (Text.hex 4 panel.opcode.toNat
    ++ ("  PC " ++ (Text.hex 4 panel.pc.toNat
    ++ ("  SP " ++ (Text.padLeft 2 '0' (Nat.repr panel.sp.toNat)
    ++ ("  I " ++ (Text.hex 4 panel.index.toNat
    ++ ("  DT " ++ (Text.padLeft 3 ' ' (Nat.repr panel.delay.toNat)
    ++ ("  ST " ++ (Text.padLeft 3 ' ' (Nat.repr panel.sound.toNat)
    ++ ("  " ++ name))))))))))))

/-- The line of a slot without the mark. -/
def slotText (panel : Panel) (slot : Fin Core.stackSize) : String :=
  Text.padLeft 2 '0' (Nat.repr slot.val) ++ ": " ++ Text.hex 4 (panel.stack.get slot).toNat

/-- The text has the parts of the panel in their lines: the header, the registers with their names
in four rows of four, the stack from the top down and the held keys. -/
structure Shown (panel : Panel) (text : String) : Prop where
  count : (Text.lines text).length = 22
  /-- The last line is not ended. -/
  last : text.toList.getLast? = some ']'
  header : ∃ name, panel.control.Named name ∧ (Text.lines text)[0]? = some (panel.headed name)
  registers : ∀ r : Register, ∃ line, (Text.lines text)[1 + r.val / 4]? = some line ∧
    line.length = 28 ∧ Text.field line (r.val % 4 * 7) 7
      = "V" ++ Text.hex 1 r.val ++ " " ++ Text.hex 2 (panel.registers.get r).toNat ++ "  "
  stack : ∀ slot : Fin Core.stackSize, ∃ line, (Text.lines text)[20 - slot.val]? = some line ∧
    line.length = (if slot.val = panel.sp.toNat then 14 else 8) ∧
    Text.field line 0 4 = Text.padLeft 2 '0' (Nat.repr slot.val) ++ ": " ∧
    Text.field line 4 4 = Text.hex 4 (panel.stack.get slot).toNat
  keys : ∃ keys : List Nibble, keys.Pairwise (· < ·) ∧
    (∀ key, key ∈ keys ↔ panel.keypad[key] = true) ∧
    (Text.lines text)[21]?
      = some ("keys [" ++ (String.intercalate " " (keys.map fun key => Text.hex 1 key.val) ++ "]"))
  marked : ∀ k line, (Text.lines text)[k]? = some line →
    (Marked line ↔ panel.sp.toNat ≤ 15 ∧ k = 20 - panel.sp.toNat)

variable {panel other : Panel} {text : String}

section Lines

/-! ### Lines and the characters in them -/

theorem getElem?_lines_registerRow (panel : Panel) (row : Fin 4) :
    panel.lines[1 + row.val]? = some (panel.registerRow row) := by
  fin_cases row <;> rfl

theorem getElem?_lines_stackLine (panel : Panel) (slot : Fin Core.stackSize) :
    panel.lines[20 - slot.val]? = some (panel.stackLine slot) := by
  fin_cases slot <;> rfl

theorem stackLine_eq (panel : Panel) (slot : Fin Core.stackSize) :
    panel.stackLine slot
      = panel.slotText slot ++ (if slot.val = panel.sp.toNat then " <- SP" else "") := rfl

/-- What stands in which line. -/
theorem line_cases {k : Nat} {line : String} (found : panel.lines[k]? = some line) :
    (k = 0 ∧ line = panel.header) ∨
      (∃ row : Fin 4, k = 1 + row.val ∧ line = panel.registerRow row) ∨
      (∃ slot : Fin Core.stackSize, k = 20 - slot.val ∧ line = panel.stackLine slot) ∨
      (k = 21 ∧ line = panel.keysLine) := by
  have lt : k < 22 := (List.getElem?_eq_some_iff.mp found).1
  have inside : k = 0 ∨ (1 ≤ k ∧ k < 5) ∨ (5 ≤ k ∧ k < 21) ∨ k = 21 := by omega
  rcases inside with rfl | ⟨ge, lt⟩ | ⟨ge, lt⟩ | rfl
  · exact .inl ⟨rfl, (Option.some.inj found).symm⟩
  · let row : Fin 4 := ⟨k - 1, by omega⟩
    have place : k = 1 + row.val := (Nat.add_sub_of_le ge).symm
    rw [place, getElem?_lines_registerRow] at found
    exact .inr (.inl ⟨row, place, (Option.some.inj found).symm⟩)
  · let slot : Fin Core.stackSize := ⟨20 - k, by rw [Core.stackSize]; omega⟩
    have place : k = 20 - slot.val := (Nat.sub_sub_self (Nat.le_of_lt_succ lt)).symm
    rw [place, getElem?_lines_stackLine] at found
    exact .inr (.inr (.inl ⟨slot, place, (Option.some.inj found).symm⟩))
  · exact .inr (.inr (.inr ⟨rfl, (Option.some.inj found).symm⟩))

theorem header_eq_headed (panel : Panel) : panel.header = panel.headed panel.control.text := by
  delta header
  simp only [String.append_assoc]
  rfl

/-! A line end cuts lines, and the tip of an arrow begins the mark. Neither stands in any other
part of a line. -/

section Foreign

variable {c : Char} (foreign : c = '\n' ∨ c = '<')

include foreign

theorem not_mem_hex (width n : Nat) : c ∉ (Text.hex width n).toList := by
  refine Text.not_mem_hex ?_ width n
  rcases foreign with rfl | rfl <;> decide

theorem not_mem_decimal {fill : Char} (filling : fill = '0' ∨ fill = ' ') (width n : Nat) :
    c ∉ (Text.padLeft width fill (Nat.repr n)).toList := by
  rcases foreign with rfl | rfl <;> rcases filling with rfl | rfl <;>
    exact Text.not_mem_padLeft (by decide) (Text.not_mem_repr rfl n) width

theorem not_mem_header : c ∉ panel.header.toList := by
  have control : c ∉ panel.control.text.toList := by
    rcases foreign with rfl | rfl <;> cases panel.control <;> decide
  rw [header_eq_headed, headed]
  simp only [String.toList_append, List.mem_append, not_or, not_mem_hex foreign,
    not_mem_decimal foreign, true_or, or_true, control, not_false_eq_true, and_true, true_and]
  rcases foreign with rfl | rfl <;> decide

theorem not_mem_registerRow (row : Fin 4) : c ∉ (panel.registerRow row).toList := by
  have entry (r : Register) : c ∉ (panel.registerEntry r).toList := by
    simp only [registerEntry, String.toList_append, List.mem_append, not_or, not_mem_hex foreign,
      not_false_eq_true, and_true]
    rcases foreign with rfl | rfl <;> decide
  simp [registerRow, String.toList_join, entry]

theorem not_mem_keysLine : c ∉ panel.keysLine.toList := by
  have between : c ∉ (String.intercalate " "
      (panel.keypad.held.map fun key => Text.hex 1 key.val)).toList := by
    rw [String.toList_intercalate]
    intro member
    rcases Text.mem_intercalate member with blank | ⟨part, among, here⟩
    · revert blank
      rcases foreign with rfl | rfl <;> decide
    · rw [List.map_map] at among
      obtain ⟨key, -, rfl⟩ := List.mem_map.mp among
      exact not_mem_hex foreign 1 key.val here
  simp only [keysLine, String.toList_append, List.mem_append, not_or, between, not_false_eq_true,
    and_true]
  rcases foreign with rfl | rfl <;> decide

theorem not_mem_slotText (slot : Fin Core.stackSize) : c ∉ (panel.slotText slot).toList := by
  simp only [slotText, String.toList_append, List.mem_append, not_or, not_mem_hex foreign,
    not_mem_decimal foreign, true_or, not_false_eq_true, and_true, true_and]
  rcases foreign with rfl | rfl <;> decide

end Foreign

theorem lines_text (panel : Panel) : Text.lines panel.text = panel.lines := by
  refine Text.lines_intercalate (fun line member => ?_) (List.cons_ne_nil _ _)
  have foreign : '\n' = '\n' ∨ '\n' = '<' := .inl rfl
  obtain ⟨k, found⟩ := List.mem_iff_getElem?.mp member
  rcases line_cases found with ⟨-, rfl⟩ | ⟨row, -, rfl⟩ | ⟨slot, -, rfl⟩ | ⟨-, rfl⟩
  · exact not_mem_header foreign
  · exact not_mem_registerRow foreign row
  · rw [stackLine_eq, String.toList_append, List.mem_append, not_or]
    refine ⟨not_mem_slotText foreign slot, ?_⟩
    split <;> decide
  · exact not_mem_keysLine foreign

end Lines

section Mark

/-- The mark cannot stand in a line without its tip. -/
theorem not_marked {line : String} (free : '<' ∉ line.toList) : ¬ Marked line :=
  fun marked => free (marked.subset (by decide))

theorem marked_stackLine {slot : Fin Core.stackSize} :
    Marked (panel.stackLine slot) ↔ slot.val = panel.sp.toNat := by
  rw [stackLine_eq]
  split
  · next here =>
    refine iff_of_true ⟨(panel.slotText slot).toList, [], ?_⟩ here
    rw [List.append_nil, String.toList_append]
  · next elsewhere =>
    rw [String.append_empty]
    exact iff_of_false (not_marked (not_mem_slotText (.inr rfl) slot)) elsewhere

/-- Of all lines the one of the slot that the stack pointer names is marked, if there is one. -/
theorem marked_iff {k : Nat} {line : String} (found : panel.lines[k]? = some line) :
    Marked line ↔ panel.sp.toNat ≤ 15 ∧ k = 20 - panel.sp.toNat := by
  have tip : '<' = '\n' ∨ '<' = '<' := .inr rfl
  rcases line_cases found with ⟨rfl, rfl⟩ | ⟨row, rfl, rfl⟩ | ⟨slot, rfl, rfl⟩ | ⟨rfl, rfl⟩
  · exact iff_of_false (not_marked (not_mem_header tip)) (by omega)
  · exact iff_of_false (not_marked (not_mem_registerRow tip row)) (by omega)
  · have lt : slot.val < 16 := slot.isLt
    rw [marked_stackLine]
    omega
  · exact iff_of_false (not_marked (not_mem_keysLine tip)) (by omega)

end Mark

section Columns

theorem length_registerEntry (panel : Panel) (r : Register) :
    (panel.registerEntry r).length = 7 := by
  simp only [registerEntry, String.length_append, Text.length_hex]
  rfl

/-- The value can be told from the entry of a register. -/
theorem entry_inj {name : String} {a b : Byte}
    (same : "V" ++ name ++ " " ++ Text.hex 2 a.toNat ++ "  "
      = "V" ++ name ++ " " ++ Text.hex 2 b.toNat ++ "  ") : a = b := by
  have same := (String.append_left_inj _).mp same
  exact Text.hex_byte_inj.mp ((String.append_right_inj _).mp same)

theorem entries_uniform (panel : Panel) (register : Fin 4 → Register) :
    ∀ part ∈ (List.finRange 4).map fun column => panel.registerEntry (register column),
      part.length = 7 := by
  intro part member
  obtain ⟨column, -, rfl⟩ := List.mem_map.mp member
  exact panel.length_registerEntry _

theorem length_registerRow (panel : Panel) (row : Fin 4) : (panel.registerRow row).length = 28 := by
  rw [registerRow, Text.join_eq_intercalate]
  have whole := @Text.width_intercalate _ "" _ (panel.entries_uniform fun column =>
    ⟨row.val * 4 + column.val, by omega⟩) (by simp)
  simpa using whole

/-- The entry of a register has its column in the row. -/
theorem field_registerRow (panel : Panel) {row column : Fin 4} {r : Register}
    (number : row.val * 4 + column.val = r.val) :
    Text.field (panel.registerRow row) (column.val * 7) 7 = panel.registerEntry r := by
  have here := @Text.field_intercalate "" _ "" _ column.val (panel.entries_uniform fun column =>
    ⟨row.val * 4 + column.val, by omega⟩) (by simp)
  rw [registerRow, Text.join_eq_intercalate]
  simpa [number] using here

/-- A slot has no more than two decimal digits. -/
theorem length_slotNumber (slot : Fin Core.stackSize) :
    (Text.padLeft 2 '0' (Nat.repr slot.val) ++ ": ").length = 4 := by
  have fits : slot.val < 10 ^ 2 := Nat.lt_trans slot.isLt (by decide)
  rw [String.length_append, Text.length_padLeft_repr '0' (by decide) fits]
  rfl

theorem length_stackLine (panel : Panel) (slot : Fin Core.stackSize) :
    (panel.stackLine slot).length = if slot.val = panel.sp.toNat then 14 else 8 := by
  rw [stackLine_eq, slotText, String.length_append, String.length_append, length_slotNumber,
    Text.length_hex]
  split <;> rfl

theorem field_stackLine (panel : Panel) (slot : Fin Core.stackSize) :
    Text.field (panel.stackLine slot) 0 4 = Text.padLeft 2 '0' (Nat.repr slot.val) ++ ": " ∧
      Text.field (panel.stackLine slot) 4 4 = Text.hex 4 (panel.stack.get slot).toNat := by
  have number := length_slotNumber slot
  rw [stackLine_eq, slotText, String.append_assoc]
  refine ⟨Text.field_append_left rfl number, ?_⟩
  rw [Text.field_append_right (Nat.le_of_eq number)]
  exact Text.field_append_left (by rw [number]) (Text.length_hex 4 _)

end Columns

section Header

/-- A byte has no more than three decimal digits. -/
theorem length_timer (b : Byte) : (Text.padLeft 3 ' ' (Nat.repr b.toNat)).length = 3 :=
  Text.length_padLeft_repr ' ' (by decide) (Nat.lt_trans b.toNat_lt (by decide))

theorem headed_inj {name name' : String} (same : panel.headed name = other.headed name') :
    panel.opcode = other.opcode ∧ panel.pc = other.pc ∧ panel.sp = other.sp ∧
      panel.index = other.index ∧ panel.delay = other.delay ∧ panel.sound = other.sound ∧
      name = name' := by
  have leads : "  I ".toList.head? = some ' ' := by decide
  have blank (b : Byte) : ' ' ∉ (Text.padLeft 2 '0' (Nat.repr b.toNat)).toList :=
    Text.not_mem_padLeft (by decide) (Text.not_mem_repr rfl _) 2
  have timers (a b : Byte) : (Text.padLeft 3 ' ' (Nat.repr a.toNat)).length
      = (Text.padLeft 3 ' ' (Nat.repr b.toNat)).length := by
    rw [length_timer, length_timer]
  rw [headed, headed] at same
  obtain ⟨opcode, same⟩ := Text.hex_append_inj.mp ((String.append_right_inj _).mp same)
  obtain ⟨pc, same⟩ := Text.hex_append_inj.mp ((String.append_right_inj _).mp same)
  obtain ⟨sp, same⟩ := (Text.append_mark_inj leads (blank _) (blank _)).mp
    ((String.append_right_inj _).mp same)
  obtain ⟨index, same⟩ := Text.hex_append_inj.mp same
  obtain ⟨delay, same⟩ := (Text.append_inj_of_length (timers _ _)).mp
    ((String.append_right_inj _).mp same)
  obtain ⟨sound, same⟩ := (Text.append_inj_of_length (timers _ _)).mp
    ((String.append_right_inj _).mp same)
  refine ⟨Text.hex_word_inj.mp opcode, Text.hex_word_inj.mp pc, ?_, Text.hex_word_inj.mp index,
    ?_, ?_, (String.append_right_inj _).mp same⟩
  · exact UInt8.toNat_inj.mp ((Text.padLeft_repr_inj (.inl rfl)).mp sp)
  · exact UInt8.toNat_inj.mp ((Text.padLeft_repr_inj (.inr rfl)).mp delay)
  · exact UInt8.toNat_inj.mp ((Text.padLeft_repr_inj (.inr rfl)).mp sound)

end Header

section Keys

/-- Every key has one digit, and without the blanks between them the digits are left. -/
theorem filter_keys (keys : List Nibble) :
    (String.intercalate " " (keys.map fun key => Text.hex 1 key.val)).toList.filter (· != ' ')
      = keys.map fun key => Text.hexDigit key.val := by
  have blank : " ".toList.filter (· != ' ') = [] := by decide
  have digit : ∀ key : Nibble,
      (Text.hex 1 key.val).toList.filter (· != ' ') = [Text.hexDigit key.val] := by decide
  rw [String.toList_intercalate, Text.filter_intercalate, blank, Text.nil_intercalate,
    List.map_map, List.map_map]
  calc
    _ = (keys.map fun key => [Text.hexDigit key.val]).flatten :=
      congrArg List.flatten (List.map_congr_left fun key _ => digit key)
    _ = keys.map fun key => Text.hexDigit key.val := by
      rw [← List.flatMap_def, ← List.map_eq_flatMap]

theorem keys_inj {first second : List Nibble}
    (same : String.intercalate " " (first.map fun key => Text.hex 1 key.val)
      = String.intercalate " " (second.map fun key => Text.hex 1 key.val)) : first = second := by
  have same := congrArg (fun text => text.toList.filter (· != ' ')) same
  rw [filter_keys, filter_keys] at same
  exact Text.hexDigit_injective.list_map same

end Keys

/-- The parts of a panel stand in their lines. -/
theorem shown_text (panel : Panel) : panel.Shown panel.text := by
  constructor
  case count => rw [lines_text]; rfl
  case last =>
    rw [text, lines, String.intercalate_append_of_ne_nil (by simp) (by simp),
      String.intercalate_singleton, keysLine, ← String.append_assoc, String.toList_append]
    exact List.getLast?_concat
  case header =>
    refine ⟨_, panel.control.named_text, ?_⟩
    rw [lines_text, ← header_eq_headed]
    rfl
  case registers =>
    intro r
    let row : Fin 4 := ⟨r.val / 4, by omega⟩
    let column : Fin 4 := ⟨r.val % 4, by omega⟩
    have number : row.val * 4 + column.val = r.val := Nat.div_add_mod' r.val 4
    rw [lines_text]
    exact ⟨_, panel.getElem?_lines_registerRow row, panel.length_registerRow row,
      panel.field_registerRow number⟩
  case stack =>
    intro slot
    rw [lines_text]
    exact ⟨_, panel.getElem?_lines_stackLine slot, panel.length_stackLine slot,
      panel.field_stackLine slot⟩
  case keys =>
    refine ⟨panel.keypad.held, (List.pairwise_lt_finRange 16).filter _,
      fun key => Keypad.mem_held, ?_⟩
    rw [lines_text, ← String.append_assoc]
    rfl
  case marked =>
    intro k line found
    rw [lines_text] at found
    exact marked_iff found

/-- What a text shows is one panel, which can be read off it. -/
theorem Shown.unique (shown : panel.Shown text) (shown' : other.Shown text) : panel = other := by
  obtain ⟨name, named, header⟩ := shown.header
  obtain ⟨name', named', header'⟩ := shown'.header
  obtain ⟨opcode, pc, sp, index, delay, sound, rfl⟩ :=
    headed_inj (Option.some.inj (header.symm.trans header'))
  have control : panel.control = other.control := named.unique named'
  have registers : panel.registers = other.registers := by
    refine Vector.ext fun r lt => ?_
    obtain ⟨line, found, -, entry⟩ := shown.registers ⟨r, lt⟩
    obtain ⟨line', found', -, entry'⟩ := shown'.registers ⟨r, lt⟩
    rw [found] at found'
    cases found'
    exact entry_inj (entry.symm.trans entry')
  have stack : panel.stack = other.stack := by
    refine Vector.ext fun slot lt => ?_
    obtain ⟨line, found, -, -, entry⟩ := shown.stack ⟨slot, lt⟩
    obtain ⟨line', found', -, -, entry'⟩ := shown'.stack ⟨slot, lt⟩
    rw [found] at found'
    cases found'
    exact Text.hex_word_inj.mp (entry.symm.trans entry')
  have keypad : panel.keypad = other.keypad := by
    obtain ⟨keys, -, held, found⟩ := shown.keys
    obtain ⟨keys', -, held', found'⟩ := shown'.keys
    have same := (String.append_right_inj _).mp (Option.some.inj (found.symm.trans found'))
    have same : keys = keys' := keys_inj ((String.append_left_inj _).mp same)
    refine Vector.ext fun key lt => ?_
    rw [Bool.eq_iff_iff]
    exact (held ⟨key, lt⟩).symm.trans (same ▸ held' ⟨key, lt⟩)
  cases panel
  cases other
  simp_all

end Panel

/-- The text of a panel shows all of it.

Two panels have the same text only if they are the same. Every text has twenty-two lines, the last
one not ended: the header, the registers four to a row, the slots of the stack from the top down
and the held keys in ascending order. The line of the slot that the stack pointer names is marked
and no other, and none is if there is no such slot. A machine always has such a slot: whatever was
done to it, one line of its panel is marked. -/
theorem Panel.text_shows_whole :
    (∀ first second : Panel, first.text = second.text ↔ first = second) ∧
    (∀ panel : Panel, panel.Shown panel.text) ∧
    ∀ (settings : Settings) (random : WordStream) (commands : List Command),
      let panel := ((Machine.switchedOn settings random).performAll commands).after.core.panel
      panel.sp.toNat ≤ 15 ∧
        ∃! k : Nat, ∃ line, (Text.lines panel.text)[k]? = some line ∧ Panel.Marked line := by
  refine ⟨fun first second => ⟨fun same => ?_, congrArg Panel.text⟩, Panel.shown_text,
    fun settings random commands => ?_⟩
  · have shown := first.shown_text
    rw [same] at shown
    exact shown.unique second.shown_text
  · intro panel
    have bound : panel.sp.toNat ≤ 15 := (Machine.inRange_performAll settings random commands).sp_le
    let slot : Fin Core.stackSize := ⟨panel.sp.toNat, Nat.lt_succ_of_le bound⟩
    have marked := panel.shown_text.marked
    rw [Panel.lines_text] at marked ⊢
    refine ⟨bound, 20 - panel.sp.toNat, ⟨_, panel.getElem?_lines_stackLine slot, ?_⟩, ?_⟩
    · exact Panel.marked_stackLine.mpr rfl
    · rintro k ⟨line, found, mark⟩
      exact ((marked k line found).mp mark).2

end ChipEight
