import ChipEight.Fault
import ChipEight.Instruction.Basic
/-!
# Instruction words

Which word stands for which instruction.

## Main definitions

- `Operation.selector`, `Operation.ofSelector?` — the last nibble of the words
  `8xy_`
- `Instruction.decode?` — the instruction that a word stands for
- `Instruction.encode` — the canonical word of an instruction
- `Instruction.decode` — `decode?` with the fault for a word that stands for none

## Design notes

The first nibble selects a family, and within a family decoding looks only at
the nibbles that hold no operand. Two families ignore a nibble: the last one of
`5xy_` and `9xy_` may be anything, and is zero in the canonical word.
-/

namespace ChipEight

namespace Operation

def selector : Operation → Nibble
  | .copy => 0x0
  | .or => 0x1
  | .and => 0x2
  | .xor => 0x3
  | .add => 0x4
  | .sub => 0x5
  | .shiftRight => 0x6
  | .subFrom => 0x7
  | .shiftLeft => 0xE

def ofSelector? (n : Nibble) : Option Operation :=
  match n.val with
  | 0x0 => some .copy
  | 0x1 => some .or
  | 0x2 => some .and
  | 0x3 => some .xor
  | 0x4 => some .add
  | 0x5 => some .sub
  | 0x6 => some .shiftRight
  | 0x7 => some .subFrom
  | 0xE => some .shiftLeft
  | _ => none

@[simp] theorem ofSelector?_selector (op : Operation) : ofSelector? op.selector = some op := by
  cases op <;> rfl

end Operation

namespace Instruction

/-- The fixed words of the family `0___`; all others are machine routines. -/
def ofZeroFamily (w : Word) : Instruction :=
  if w = 0x00E0 then .clear
  else if w = 0x00EE then .ret
  else .sys w.address

def ofKeyFamily? (x : Register) (selector : Byte) : Option Instruction :=
  match selector.toNat with
  | 0x9E => some (.skipKey x)
  | 0xA1 => some (.skipNoKey x)
  | _ => none

def ofRegisterFamily? (x : Register) (selector : Byte) : Option Instruction :=
  match selector.toNat with
  | 0x07 => some (.getDelay x)
  | 0x0A => some (.awaitKey x)
  | 0x15 => some (.setDelay x)
  | 0x18 => some (.setSound x)
  | 0x1E => some (.addIndex x)
  | 0x29 => some (.pointGlyph x)
  | 0x33 => some (.decimal x)
  | 0x55 => some (.store x)
  | 0x65 => some (.restore x)
  | _ => none

/-- The instruction that a word stands for, if it stands for one. The last line
is the family `F___`. -/
def decode? (w : Word) : Option Instruction :=
  match w.group.val with
  | 0x0 => some (ofZeroFamily w)
  | 0x1 => some (.jump w.address)
  | 0x2 => some (.call w.address)
  | 0x3 => some (.skipEqByte w.x w.lowByte)
  | 0x4 => some (.skipNeByte w.x w.lowByte)
  | 0x5 => some (.skipEq w.x w.y)
  | 0x6 => some (.loadByte w.x w.lowByte)
  | 0x7 => some (.addByte w.x w.lowByte)
  | 0x8 => (Operation.ofSelector? w.n).map fun op => .operate op w.x w.y
  | 0x9 => some (.skipNe w.x w.y)
  | 0xA => some (.setIndex w.address)
  | 0xB => some (.jumpOffset w.address)
  | 0xC => some (.random w.x w.lowByte)
  | 0xD => some (.draw w.x w.y w.n)
  | 0xE => ofKeyFamily? w.x w.lowByte
  | _ => ofRegisterFamily? w.x w.lowByte

def decode (w : Word) : Except Fault Instruction :=
  match decode? w with
  | some instruction => .ok instruction
  | none => .error (.unknownInstruction w)

example : decode 0x8AB4 = .ok (.operate .add 0xA 0xB) := rfl

example : decode 0x8AB8 = .error (.unknownInstruction 0x8AB8) := rfl

/-- The canonical word of an instruction: its operands in their own nibbles, and
zero in a nibble that decoding ignores. -/
def encode : Instruction → Word
  | .clear => 0x00E0
  | .ret => 0x00EE
  | .sys target => .ofAddressOperand 0x0 target
  | .jump target => .ofAddressOperand 0x1 target
  | .call target => .ofAddressOperand 0x2 target
  | .skipEqByte x byte => .ofByteOperand 0x3 x byte
  | .skipNeByte x byte => .ofByteOperand 0x4 x byte
  | .skipEq x y => .ofNibbles 0x5 x y 0x0
  | .loadByte x byte => .ofByteOperand 0x6 x byte
  | .addByte x byte => .ofByteOperand 0x7 x byte
  | .operate op x y => .ofNibbles 0x8 x y op.selector
  | .skipNe x y => .ofNibbles 0x9 x y 0x0
  | .setIndex target => .ofAddressOperand 0xA target
  | .jumpOffset target => .ofAddressOperand 0xB target
  | .random x mask => .ofByteOperand 0xC x mask
  | .draw x y height => .ofNibbles 0xD x y height
  | .skipKey x => .ofByteOperand 0xE x 0x9E
  | .skipNoKey x => .ofByteOperand 0xE x 0xA1
  | .getDelay x => .ofByteOperand 0xF x 0x07
  | .awaitKey x => .ofByteOperand 0xF x 0x0A
  | .setDelay x => .ofByteOperand 0xF x 0x15
  | .setSound x => .ofByteOperand 0xF x 0x18
  | .addIndex x => .ofByteOperand 0xF x 0x1E
  | .pointGlyph x => .ofByteOperand 0xF x 0x29
  | .decimal x => .ofByteOperand 0xF x 0x33
  | .store x => .ofByteOperand 0xF x 0x55
  | .restore x => .ofByteOperand 0xF x 0x65

end Instruction

end ChipEight
