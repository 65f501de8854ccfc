/-!
# Machine words

The two word sizes of the machine and the fields of an instruction word.

## Main definitions

- `Byte`, `Word` — the 8-bit and 16-bit words; their arithmetic wraps
- `Nibble`, `Register`, `Address` — operands, bounded by their type
- `Word.group`, `Word.x`, `Word.y`, `Word.n` — the four nibbles of a word,
  most significant first
- `Word.lowByte`, `Word.address` — the low 8 and the low 12 bits
- `Word.ofBytes`, `Word.ofNibbles`, `Word.ofByteOperand`,
  `Word.ofAddressOperand` — words put together from such fields

## Design notes

Fields are defined by division and remainder on natural numbers, so that facts
about them are linear arithmetic. Operands are bounded by their type: a decoded
register index needs no range check where it is used.
-/

namespace ChipEight

/-- An 8-bit word: a register, a memory cell or a screen cell. -/
abbrev Byte := UInt8

/-- A 16-bit word: an instruction, the program counter or a return address. -/
abbrev Word := UInt16

abbrev Nibble := Fin 16

/-- The index of one of the sixteen registers `V0` to `VF`. -/
abbrev Register := Fin 16

instance Nibble.neZero_size : @NeZero Nat Zero.ofOfNat0 16 := ⟨by decide⟩

/-- A 12-bit address as it stands in an instruction word. -/
abbrev Address := Fin 4096

/-- The register that arithmetic and drawing use for carry, borrow and collision. -/
def Register.flag : Register := 15

namespace Word

/-- The most significant nibble, which selects the family of an instruction. -/
def group (w : Word) : Nibble :=
  ⟨w.toNat / 4096, by have := w.toNat_lt; omega⟩

/-- The second nibble: the register `Vx`, or the last of `V0` to `Vx`. -/
def x (w : Word) : Nibble :=
  ⟨w.toNat / 256 % 16, by omega⟩

def y (w : Word) : Nibble :=
  ⟨w.toNat / 16 % 16, by omega⟩

/-- The least significant nibble: a selector, or the height of a sprite. -/
def n (w : Word) : Nibble :=
  ⟨w.toNat % 16, by omega⟩

/-- The low byte: an immediate operand, or a selector of two nibbles. -/
def lowByte (w : Word) : Byte :=
  UInt8.ofNat (w.toNat % 256)

def address (w : Word) : Address :=
  ⟨w.toNat % 4096, by omega⟩

/-- The word stored as two bytes in memory, high byte first. -/
def ofBytes (high low : Byte) : Word :=
  UInt16.ofNat (high.toNat * 256 + low.toNat)

/-- An operand address as a word; the top nibble is zero. -/
def ofAddress (a : Address) : Word :=
  UInt16.ofNat a.val

def ofNibbles (group x y n : Nibble) : Word :=
  UInt16.ofNat (group.val * 4096 + x.val * 256 + y.val * 16 + n.val)

/-- The word of a family with a register and an immediate byte. -/
def ofByteOperand (group x : Nibble) (byte : Byte) : Word :=
  UInt16.ofNat (group.val * 4096 + x.val * 256 + byte.toNat)

def ofAddressOperand (group : Nibble) (a : Address) : Word :=
  UInt16.ofNat (group.val * 4096 + a.val)

@[simp] theorem toNat_lowByte (w : Word) : w.lowByte.toNat = w.toNat % 256 := by
  simp [lowByte]

@[simp] theorem toNat_ofBytes (high low : Byte) :
    (ofBytes high low).toNat = high.toNat * 256 + low.toNat := by
  have := high.toNat_lt
  have := low.toNat_lt
  simp only [ofBytes, UInt16.toNat_ofNat']
  omega

@[simp] theorem toNat_ofAddress (a : Address) : (ofAddress a).toNat = a.val := by
  have := a.isLt
  simp only [ofAddress, UInt16.toNat_ofNat']
  omega

@[simp] theorem toNat_ofNibbles (group x y n : Nibble) :
    (ofNibbles group x y n).toNat
      = group.val * 4096 + x.val * 256 + y.val * 16 + n.val := by
  simp only [ofNibbles, UInt16.toNat_ofNat']
  omega

@[simp] theorem toNat_ofByteOperand (group x : Nibble) (byte : Byte) :
    (ofByteOperand group x byte).toNat
      = group.val * 4096 + x.val * 256 + byte.toNat := by
  have := byte.toNat_lt
  simp only [ofByteOperand, UInt16.toNat_ofNat']
  omega

@[simp] theorem toNat_ofAddressOperand (group : Nibble) (a : Address) :
    (ofAddressOperand group a).toNat = group.val * 4096 + a.val := by
  simp only [ofAddressOperand, UInt16.toNat_ofNat']
  omega

end Word

end ChipEight
