import ChipEight.Core.Arithmetic
/-!
# Memory transfers

The index register and the instructions that move bytes between registers and
the memory at the index.

## Main definitions

- `Core.addIndex`, `Core.pointGlyph` — the index moved
- `Core.decimal` — the decimal digits of a register stored
- `Core.store`, `Core.restore` — the registers from `V0` on stored and read back

## Design notes

A transfer first locates its whole span; where that fails, nothing is written.
Sums that become the index are reduced to twelve bits.
-/

namespace ChipEight

def Byte.digits (value : Byte) : Vector Byte 3 :=
  #v[value / 100, value / 10 % 10, value % 10]

namespace Core

def addIndex (x : Register) (core : Core) : Core :=
  core.assignIndex ((core.index + (core.get x).toUInt16) % 4096)

/-- Sets the index to the glyph of the low digit of `Vx`. -/
def pointGlyph (x : Register) (core : Core) : Core :=
  core.assignIndex
    (UInt16.ofNat (Font.start + (core.get x).toNat % 16 * Font.glyphHeight))

def decimal (x : Register) (core : Core) : Except Fault Core :=
  (Span.locate core.index 3).map fun span =>
    { core with memory := core.memory.write span (core.get x).digits }.next

def registersTo (core : Core) (x : Register) : Vector Byte (x.val + 1) :=
  Vector.ofFn fun k => core.get ⟨k.val, by omega⟩

/-- The index after a transfer of so many bytes, which depends on the dialect. -/
def indexAfter (dialect : Dialect) (count : Nat) (core : Core) : Word :=
  if dialect.transfersMoveIndex then (core.index + UInt16.ofNat count) % 4096 else core.index

def store (dialect : Dialect) (x : Register) (core : Core) : Except Fault Core :=
  (Span.locate core.index (x.val + 1)).map fun span =>
    { core with memory := core.memory.write span (core.registersTo x) }.assignIndex
      (core.indexAfter dialect (x.val + 1))

/-- Sets `V0` to `Vx` to the bytes at the index. -/
def restore (dialect : Dialect) (x : Register) (core : Core) : Except Fault Core :=
  (Span.locate core.index (x.val + 1)).map fun span =>
    { core with
      registers := overwrite core.registers 0 (core.memory.read span).toList }.assignIndex
      (core.indexAfter dialect (x.val + 1))

end Core

end ChipEight
