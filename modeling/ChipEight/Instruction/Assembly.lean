import ChipEight.Text.Numeral
import ChipEight.Instruction.Basic
/-!
# Assembly text

An instruction as a line of assembly: a mnemonic and operands, such as
`ADD V1, V2` or `DRW V0, V1, 5`.

## Main definitions

- `Operand`, `Assembly` — a line of assembly as data
- `Instruction.assembly` — the line of an instruction
- `Assembly.text` — the line as a string
-/

namespace ChipEight

inductive Operand where
  | register (r : Register)
  | byte (b : Byte)
  | address (a : Address)
  | count (n : Nibble)
  /-- A place with a name of its own, such as the index or a timer. -/
  | place (name : String)
  deriving DecidableEq, Repr

/-- The text of an operand: bytes and addresses in hexadecimal, counts in
decimal. -/
def Operand.text : Operand → String
  | .register r => "V" ++ Text.hex 1 r.val
  | .byte b => "0x" ++ Text.hex 2 b.toNat
  | .address a => "0x" ++ Text.hex 3 a.val
  | .count n => Nat.repr n.val
  | .place name => name

structure Assembly where
  mnemonic : String
  operands : List Operand := []
  deriving DecidableEq, Repr

/-- The line as text: a blank in front of the operands and commas between them. -/
def Assembly.text (line : Assembly) : String :=
  match line.operands with
  | [] => line.mnemonic
  | operands => line.mnemonic ++ " " ++ String.intercalate ", " (operands.map Operand.text)

def Operation.mnemonic : Operation → String
  | .copy => "LD"
  | .or => "OR"
  | .and => "AND"
  | .xor => "XOR"
  | .add => "ADD"
  | .sub => "SUB"
  | .shiftRight => "SHR"
  | .subFrom => "SUBN"
  | .shiftLeft => "SHL"

namespace Instruction

def assembly : Instruction → Assembly
  | .clear => ⟨"CLS", []⟩
  | .ret => ⟨"RET", []⟩
  | .sys target => ⟨"SYS", [.address target]⟩
  | .jump target => ⟨"JP", [.address target]⟩
  | .call target => ⟨"CALL", [.address target]⟩
  | .skipEqByte x byte => ⟨"SE", [.register x, .byte byte]⟩
  | .skipNeByte x byte => ⟨"SNE", [.register x, .byte byte]⟩
  | .skipEq x y => ⟨"SE", [.register x, .register y]⟩
  | .loadByte x byte => ⟨"LD", [.register x, .byte byte]⟩
  | .addByte x byte => ⟨"ADD", [.register x, .byte byte]⟩
  | .operate op x y => ⟨op.mnemonic, [.register x, .register y]⟩
  | .skipNe x y => ⟨"SNE", [.register x, .register y]⟩
  | .setIndex target => ⟨"LD", [.place "I", .address target]⟩
  | .jumpOffset target => ⟨"JP", [.register 0, .address target]⟩
  | .random x mask => ⟨"RND", [.register x, .byte mask]⟩
  | .draw x y height => ⟨"DRW", [.register x, .register y, .count height]⟩
  | .skipKey x => ⟨"SKP", [.register x]⟩
  | .skipNoKey x => ⟨"SKNP", [.register x]⟩
  | .getDelay x => ⟨"LD", [.register x, .place "DT"]⟩
  | .awaitKey x => ⟨"LD", [.register x, .place "K"]⟩
  | .setDelay x => ⟨"LD", [.place "DT", .register x]⟩
  | .setSound x => ⟨"LD", [.place "ST", .register x]⟩
  | .addIndex x => ⟨"ADD", [.place "I", .register x]⟩
  | .pointGlyph x => ⟨"LD", [.place "F", .register x]⟩
  | .decimal x => ⟨"LD", [.place "B", .register x]⟩
  | .store x => ⟨"LD", [.place "[I]", .register x]⟩
  | .restore x => ⟨"LD", [.register x, .place "[I]"]⟩

def text (instruction : Instruction) : String :=
  instruction.assembly.text

example : (Instruction.draw 0x0 0xB 5).text = "DRW V0, VB, 5" := by decide

end Instruction

end ChipEight
