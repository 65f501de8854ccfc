import ChipEight.Instruction.Assembly
import ChipEight.Proofs.Text.Layout
import ChipEight.Proofs.Text.Numeral
import Mathlib.Algebra.Order.BigOperators.Group.List
import Mathlib.Algebra.Order.Group.Nat
/-!
# Assembly read back

The text of an instruction names it: an assembler gets the instruction back. It cuts the text at
its blanks into a mnemonic and operands, tells the operands by how they are written, and finds the
instruction by the kinds of its operands and the mnemonic.

## Main definitions

- `Operand.ofChars` — the operand that is written so
- `Assembly.ofText` — the line of assembly that a text is
- `Instruction.ofAssembly?` — the instruction of a line of assembly

## Main statements

- `Operand.ofChars_text`, `Assembly.ofText_text`, `Instruction.ofAssembly?_assembly` — each part of
  the assembler inverts what it reads
- `Instruction.text_inj` — instructions with one text are the same
- `Instruction.length_text_le` — no text is longer than sixteen characters
-/

namespace ChipEight

theorem Word.n_ofNat (k : Nibble) : Word.n (UInt16.ofNat k.val) = k := by
  refine Fin.ext ?_
  simp only [Word.n, UInt16.toNat_ofNat']
  omega

theorem Word.address_ofNat (a : Address) : Word.address (UInt16.ofNat a.val) = a := by
  refine Fin.ext ?_
  simp only [Word.address, UInt16.toNat_ofNat']
  omega

namespace Operand

/-- Whether the operand can stand in an instruction; not every name is one of a place. -/
def Known : Operand → Prop
  | .place name => name ∈ ["I", "[I]", "DT", "ST", "K", "F", "B"]
  | _ => True

/-- The operand that is written so, as far as its numeral fits. -/
def ofChars : List Char → Operand
  | ['V', r] => .register (Word.n (UInt16.ofNat (Text.hexValue [r])))
  | ['0', 'x', a, b] => .byte (UInt8.ofNat (Text.hexValue [a, b]))
  | ['0', 'x', a, b, c] => .address (Word.address (UInt16.ofNat (Text.hexValue [a, b, c])))
  | text =>
    if text.all Char.isDigit then .count (Word.n (UInt16.ofNat (Nat.ofDigitChars 10 text 0)))
    else .place (String.ofList text)

variable {operand : Operand}

theorem ofChars_text (known : operand.Known) : ofChars operand.text.toList = operand := by
  cases operand with
  | register r =>
    have chars : (register r).text.toList = 'V' :: Text.hexDigits 1 r.val := by
      simp [text, Text.hex]
    have read : ofChars ('V' :: Text.hexDigits 1 r.val)
      = .register (Word.n (UInt16.ofNat (Text.hexValue (Text.hexDigits 1 r.val)))) := rfl
    rw [chars, read, Text.hexValue_hexDigits_of_lt r.isLt, Word.n_ofNat]
  | byte b =>
    have chars : (byte b).text.toList = '0' :: 'x' :: Text.hexDigits 2 b.toNat := by
      simp [text, Text.hex]
    have read : ofChars ('0' :: 'x' :: Text.hexDigits 2 b.toNat)
      = .byte (UInt8.ofNat (Text.hexValue (Text.hexDigits 2 b.toNat))) := rfl
    rw [chars, read, Text.hexValue_hexDigits_of_lt b.toNat_lt, UInt8.ofNat_toNat]
  | address a =>
    have chars : (address a).text.toList = '0' :: 'x' :: Text.hexDigits 3 a.val := by
      simp [text, Text.hex]
    have read : ofChars ('0' :: 'x' :: Text.hexDigits 3 a.val)
      = .address (Word.address (UInt16.ofNat (Text.hexValue (Text.hexDigits 3 a.val)))) := rfl
    rw [chars, read, Text.hexValue_hexDigits_of_lt a.isLt, Word.address_ofNat]
  | count n =>
    clear known
    revert n
    decide
  | place name =>
    simp only [Known] at known
    revert name
    decide

/-- No operand has a blank or a comma in its text, where the line is cut. -/
theorem not_mem_text (known : operand.Known) :
    ' ' ∉ operand.text.toList ∧ ',' ∉ operand.text.toList := by
  cases operand with
  | register r | byte b | address a =>
    simp [text, Text.not_mem_hex (c := ' ') (by decide), Text.not_mem_hex (c := ',') (by decide)]
  | count n => exact ⟨Text.not_mem_repr rfl n.val, Text.not_mem_repr rfl n.val⟩
  | place name =>
    simp only [Known] at known
    revert name
    decide

/-- The room that the text of an operand needs; a count may have two digits. -/
def width : Operand → Nat
  | .register _ => 2
  | .byte _ => 4
  | .address _ => 5
  | .count _ => 2
  | .place name => name.length

theorem length_text_le (operand : Operand) : operand.text.length ≤ operand.width := by
  cases operand with
  | register r | byte b | address a =>
    rw [text, String.length_append, Text.length_hex]
    exact Nat.le_refl _
  | count n =>
    have two_digits : n.val < 10 ^ 2 := Nat.lt_trans n.isLt (by decide)
    exact (Nat.length_repr_le_iff (Nat.succ_pos 1)).mpr two_digits
  | place name => exact Nat.le_refl _

end Operand

namespace Assembly

/-- The line of assembly that a text is: commas left out, it is cut at its blanks. -/
def ofText (text : String) : Assembly :=
  match (text.toList.filter (· != ',')).splitOn ' ' with
  | mnemonic :: operands => ⟨String.ofList mnemonic, operands.map Operand.ofChars⟩
  | [] => ⟨"", []⟩

/-- A line whose mnemonic is one word and whose operands can stand in instructions. -/
structure Known (line : Assembly) : Prop where
  mnemonic : ' ' ∉ line.mnemonic.toList ∧ ',' ∉ line.mnemonic.toList
  operands : ∀ operand ∈ line.operands, operand.Known

variable {line : Assembly}

theorem toList_text_cons (mnemonic : String) (operand : Operand) (rest : List Operand) :
    (text ⟨mnemonic, operand :: rest⟩).toList
      = mnemonic.toList ++ [' ']
        ++ [',', ' '].intercalate ((operand :: rest).map (·.text.toList)) := by
  simp only [text, String.toList_append, String.toList_intercalate, List.map_map]
  rfl

/-- Without its commas a line is its mnemonic and its operands with blanks between them. -/
theorem filter_text (known : line.Known) :
    line.text.toList.filter (· != ',')
      = [' '].intercalate (line.mnemonic.toList :: line.operands.map (·.text.toList)) := by
  have whole (l : List Char) (free : ',' ∉ l) : l.filter (· != ',') = l := by
    rw [List.filter_eq_self]
    simpa using fun c member => ne_of_mem_of_not_mem member free
  obtain ⟨mnemonic, operands⟩ := line
  have first : mnemonic.toList.filter (· != ',') = mnemonic.toList := whole _ known.mnemonic.2
  have others : (operands.map (·.text.toList)).map (fun part => part.filter (· != ','))
      = operands.map (·.text.toList) := by
    rw [List.map_map]
    exact List.map_congr_left fun operand member =>
      whole _ (Operand.not_mem_text (known.operands operand member)).2
  cases operands with
  | nil => simpa [text] using first
  | cons operand rest =>
    rw [toList_text_cons, List.filter_append, List.filter_append, first, Text.filter_intercalate,
      others]
    exact List.intercalate_cons_cons.symm

theorem ofText_text (known : line.Known) : ofText line.text = line := by
  have cut : (line.text.toList.filter (· != ',')).splitOn ' '
      = line.mnemonic.toList :: line.operands.map (·.text.toList) := by
    rw [filter_text known]
    refine List.splitOn_intercalate ' ' ?_ (List.cons_ne_nil _ _)
    intro part member
    rcases List.mem_cons.mp member with rfl | member
    · exact known.mnemonic.1
    · obtain ⟨operand, given, rfl⟩ := List.mem_map.mp member
      exact (Operand.not_mem_text (known.operands operand given)).1
  have operands : (line.operands.map (·.text.toList)).map Operand.ofChars = line.operands := by
    rw [List.map_map]
    exact (List.map_congr_left fun operand member =>
      Operand.ofChars_text (known.operands operand member)).trans (List.map_id _)
  rw [ofText, cut]
  show Assembly.mk (String.ofList line.mnemonic.toList) _ = line
  rw [operands, String.ofList_toList]

theorem length_text_le (line : Assembly) :
    line.text.length
      ≤ line.mnemonic.length + (line.operands.map fun operand => operand.width + 2).sum := by
  obtain ⟨mnemonic, operands⟩ := line
  cases operands with
  | nil => exact Nat.le_refl _
  | cons operand rest =>
    have joined : ([',', ' '].intercalate ((operand :: rest).map (·.text.toList))).length + 2
        = (((operand :: rest).map (·.text.toList)).map fun part => part.length + 2).sum :=
      Text.length_intercalate (List.cons_ne_nil _ _)
    have widths : (((operand :: rest).map (·.text.toList)).map fun part => part.length + 2).sum
        ≤ ((operand :: rest).map fun operand => operand.width + 2).sum := by
      rw [List.map_map]
      refine List.sum_le_sum fun operand _ => Nat.add_le_add_right ?_ 2
      rw [String.length_toList]
      exact operand.length_text_le
    -- the blank takes less room than a comma and a blank
    rw [← String.length_toList, toList_text_cons, List.length_append, List.length_append,
      String.length_toList, List.length_singleton, Nat.add_assoc]
    refine Nat.add_le_add_left (Nat.le_trans ?_ widths) _
    rw [← joined, Nat.add_comm]
    exact Nat.add_le_add_left (Nat.le_succ 1) _

end Assembly

def Operation.ofMnemonic? : String → Option Operation
  | "LD" => some .copy
  | "OR" => some .or
  | "AND" => some .and
  | "XOR" => some .xor
  | "ADD" => some .add
  | "SUB" => some .sub
  | "SHR" => some .shiftRight
  | "SUBN" => some .subFrom
  | "SHL" => some .shiftLeft
  | _ => none

namespace Instruction

/-- The instruction that compares two registers or computes from them. -/
def ofTwoRegisters? (x y : Register) : (mnemonic : String) → Option Instruction
  | "SE" => some (.skipEq x y)
  | "SNE" => some (.skipNe x y)
  | mnemonic => (Operation.ofMnemonic? mnemonic).map fun op => .operate op x y

def ofRegisterAndByte? (x : Register) (byte : Byte) : (mnemonic : String) → Option Instruction
  | "SE" => some (.skipEqByte x byte)
  | "SNE" => some (.skipNeByte x byte)
  | "LD" => some (.loadByte x byte)
  | "ADD" => some (.addByte x byte)
  | "RND" => some (.random x byte)
  | _ => none

/-- The instruction that sets a place from a register or moves the place. -/
def ofPlaceAndRegister? (x : Register) : (mnemonic name : String) → Option Instruction
  | "ADD", "I" => some (.addIndex x)
  | "LD", "DT" => some (.setDelay x)
  | "LD", "ST" => some (.setSound x)
  | "LD", "F" => some (.pointGlyph x)
  | "LD", "B" => some (.decimal x)
  | "LD", "[I]" => some (.store x)
  | _, _ => none

/-- The instruction that sets a register from a place. -/
def ofRegisterAndPlace? (x : Register) : (mnemonic name : String) → Option Instruction
  | "LD", "DT" => some (.getDelay x)
  | "LD", "K" => some (.awaitKey x)
  | "LD", "[I]" => some (.restore x)
  | _, _ => none

def ofAddress? (target : Address) : (mnemonic : String) → Option Instruction
  | "SYS" => some (.sys target)
  | "JP" => some (.jump target)
  | "CALL" => some (.call target)
  | _ => none

def ofRegister? (x : Register) : (mnemonic : String) → Option Instruction
  | "SKP" => some (.skipKey x)
  | "SKNP" => some (.skipNoKey x)
  | _ => none

def ofMnemonic? : (mnemonic : String) → Option Instruction
  | "CLS" => some .clear
  | "RET" => some .ret
  | _ => none

/-- The instruction of a line of assembly, if it is one. -/
def ofAssembly? (line : Assembly) : Option Instruction :=
  match line.operands with
  | [] => ofMnemonic? line.mnemonic
  | [.address target] => ofAddress? target line.mnemonic
  | [.register x] => ofRegister? x line.mnemonic
  | [.register x, .byte byte] => ofRegisterAndByte? x byte line.mnemonic
  | [.register x, .register y] => ofTwoRegisters? x y line.mnemonic
  | [.register x, .place name] => ofRegisterAndPlace? x line.mnemonic name
  | [.place name, .register x] => ofPlaceAndRegister? x line.mnemonic name
  | [.place name, .address target] =>
    if line.mnemonic = "LD" ∧ name = "I" then some (.setIndex target) else none
  | [.register r, .address target] =>
    if line.mnemonic = "JP" ∧ r = 0 then some (.jumpOffset target) else none
  | [.register x, .register y, .count height] =>
    if line.mnemonic = "DRW" then some (.draw x y height) else none
  | _ => none

theorem ofAssembly?_assembly (instruction : Instruction) :
    ofAssembly? instruction.assembly = some instruction := by
  cases instruction with
  | operate op x y => cases op <;> rfl
  | _ => rfl

theorem known_assembly (instruction : Instruction) : instruction.assembly.Known := by
  cases instruction with
  | operate op x y =>
    cases op <;> exact ⟨by simp [assembly, Operation.mnemonic], by simp [assembly, Operand.Known]⟩
  | _ => exact ⟨by simp [assembly], by simp [assembly, Operand.Known]⟩

variable {first second : Instruction}

theorem text_inj : first.text = second.text ↔ first = second := by
  constructor
  · intro same
    have line : first.assembly = second.assembly := by
      rw [← Assembly.ofText_text first.known_assembly, ← Assembly.ofText_text second.known_assembly]
      exact congrArg Assembly.ofText same
    exact Option.some.inj (by rw [← ofAssembly?_assembly, line, ofAssembly?_assembly])
  · rintro rfl
    rfl

theorem length_text_le (instruction : Instruction) : instruction.text.length ≤ 16 := by
  refine Nat.le_trans instruction.assembly.length_text_le ?_
  cases instruction with
  | operate op x y =>
    cases op <;> simp only [assembly, Operation.mnemonic, Operand.width, List.map, List.sum_cons,
      List.sum_nil] <;> decide
  | _ =>
    simp only [assembly, Operand.width, List.map, List.sum_cons, List.sum_nil]
    decide

end Instruction

end ChipEight
