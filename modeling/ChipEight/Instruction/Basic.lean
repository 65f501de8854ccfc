import ChipEight.Word
/-!
# Instructions

The instruction set as data, apart from how it is encoded, written and executed.

## Main definitions

- `Operation` — what is computed from two registers
- `Instruction` — the instructions with their operands

## Design notes

The nine operations on two registers share their operands and most of their
meaning, so they are one constructor of `Instruction`. All operands are bounded
by their type.
-/

namespace ChipEight

/-- What the family `8xy_` computes from the registers `Vx` and `Vy`, into `Vx`. -/
inductive Operation where
  | copy
  | or
  | and
  | xor
  | add
  | sub
  | shiftRight
  | subFrom
  | shiftLeft
  deriving DecidableEq, Repr

/-- The instruction set. `x` and `y` name registers. -/
inductive Instruction where
  | clear
  | ret
  /-- Runs a routine of the host machine; here a jump to `target`. -/
  | sys (target : Address)
  | jump (target : Address)
  | call (target : Address)
  | skipEqByte (x : Register) (byte : Byte)
  | skipNeByte (x : Register) (byte : Byte)
  | skipEq (x y : Register)
  | loadByte (x : Register) (byte : Byte)
  /-- Adds `byte` to `Vx`, without a carry. -/
  | addByte (x : Register) (byte : Byte)
  | operate (op : Operation) (x y : Register)
  | skipNe (x y : Register)
  | setIndex (target : Address)
  | jumpOffset (target : Address)
  | random (x : Register) (mask : Byte)
  /-- Draws the sprite of `height` rows at the index, with its corner at `Vx`, `Vy`. -/
  | draw (x y : Register) (height : Nibble)
  | skipKey (x : Register)
  | skipNoKey (x : Register)
  | getDelay (x : Register)
  /-- Waits until a key is held and sets `Vx` to it. -/
  | awaitKey (x : Register)
  | setDelay (x : Register)
  | setSound (x : Register)
  | addIndex (x : Register)
  /-- Sets the index to the glyph of the low digit of `Vx`. -/
  | pointGlyph (x : Register)
  | decimal (x : Register)
  | store (x : Register)
  | restore (x : Register)
  deriving DecidableEq, Repr

end ChipEight
