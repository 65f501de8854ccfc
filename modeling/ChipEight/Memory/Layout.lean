import ChipEight.Memory.Basic
/-!
# Memory layout

What stands in memory when the machine is switched on, and where a program goes.

## Main definitions

- `Font.glyphs` — the shapes of the hexadecimal digits
- `Memory.fresh` — zero bytes with the font at the bottom
- `Memory.programStart`, `Memory.programRoom` — where programs start, and how
  many bytes fit there
- `Memory.load` — a program copied to its place
- `LoadError`, `LoadError.message` — why a program did not get into memory
-/

namespace ChipEight

namespace Font

abbrev start : Nat := 0

/-- The number of bytes, one to a row of pixels, of a glyph. -/
abbrev glyphHeight : Nat := 5

/-- The glyphs of the digits `0` to `F`, five rows each. A glyph is four pixels
wide and stands in the high nibble of its bytes. -/
def glyphs : List Byte := [
  0xF0, 0x90, 0x90, 0x90, 0xF0,
  0x20, 0x60, 0x20, 0x20, 0x70,
  0xF0, 0x10, 0xF0, 0x80, 0xF0,
  0xF0, 0x10, 0xF0, 0x10, 0xF0,
  0x90, 0x90, 0xF0, 0x10, 0x10,
  0xF0, 0x80, 0xF0, 0x10, 0xF0,
  0xF0, 0x80, 0xF0, 0x90, 0xF0,
  0xF0, 0x10, 0x20, 0x40, 0x40,
  0xF0, 0x90, 0xF0, 0x90, 0xF0,
  0xF0, 0x90, 0xF0, 0x10, 0xF0,
  0xF0, 0x90, 0xF0, 0x90, 0x90,
  0xE0, 0x90, 0xE0, 0x90, 0xE0,
  0xF0, 0x80, 0x80, 0x80, 0xF0,
  0xE0, 0x90, 0x90, 0x90, 0xE0,
  0xF0, 0x80, 0xF0, 0x80, 0xF0,
  0xF0, 0x80, 0xF0, 0x80, 0x80]

end Font

namespace Memory

/-- The address at which programs are loaded and start to run. -/
abbrev programStart : Nat := 0x200

/-- The number of bytes from the start of program memory to the end of memory. -/
abbrev programRoom : Nat := size - programStart

/-- Memory as it is when the machine is switched on. -/
def fresh : Memory :=
  overwrite (Vector.replicate size 0) Font.start Font.glyphs

end Memory

inductive LoadError where
  | tooLarge (size : Nat)
  | unreadable
  deriving DecidableEq, Repr

def LoadError.message : LoadError → String
  | .tooLarge size =>
    "program is " ++ Nat.repr size ++ " bytes, at most " ++ Nat.repr Memory.programRoom
      ++ " fit in program memory"
  | .unreadable => "unable to read program"

namespace Memory

/-- Memory with a program copied to its place, which leaves all other bytes
alone. A program that does not fit is refused whole. -/
def load (memory : Memory) (program : List Byte) : Except LoadError Memory :=
  if program.length ≤ programRoom then
    .ok (overwrite memory programStart program)
  else
    .error (.tooLarge program.length)

end Memory

end ChipEight
