import ChipEight.Core.Flow
import ChipEight.Dialect
import ChipEight.Instruction.Basic
/-!
# Registers and arithmetic

What instructions compute from registers into registers.

## Main definitions

- `Core.get`, `Core.set` — one register read and written
- `Operation.apply` — the result and the flag of an operation on two bytes
- `Core.operate` — an operation on two registers

## Design notes

An operation is a function on bytes, apart from the registers that it is applied
to. Both operands are read before anything is written, and the flag is written
last: when the target is the flag register itself, the flag is what remains.
-/

namespace ChipEight

def Byte.ofBool (condition : Bool) : Byte :=
  if condition then 1 else 0

namespace Operation

/-- The operand of a shift, which depends on the dialect. -/
def shiftOperand (dialect : Dialect) (vx vy : Byte) : Byte :=
  if dialect.shiftsReadVy then vy else vx

/-- What bitwise logic leaves in the flag register, which depends on the dialect. -/
def logicFlag (dialect : Dialect) : Option Byte :=
  if dialect.logicClearsFlag then some 0 else none

/-- The result of an operation, and what it leaves in the flag register if it
touches that register. -/
def apply (dialect : Dialect) (vx vy : Byte) : Operation → Byte × Option Byte
  | .copy => (vy, none)
  | .or => (vx ||| vy, logicFlag dialect)
  | .and => (vx &&& vy, logicFlag dialect)
  | .xor => (vx ^^^ vy, logicFlag dialect)
  | .add => (vx + vy, some (Byte.ofBool (256 ≤ vx.toNat + vy.toNat)))
  | .sub => (vx - vy, some (Byte.ofBool (vy < vx)))
  | .shiftRight =>
    let operand := shiftOperand dialect vx vy
    (operand / 2, some (operand % 2))
  | .subFrom => (vy - vx, some (Byte.ofBool (vx < vy)))
  | .shiftLeft =>
    let operand := shiftOperand dialect vx vy
    (operand + operand, some (operand / 128))

end Operation

namespace Core

def get (core : Core) (r : Register) : Byte :=
  core.registers[r]

def set (core : Core) (r : Register) (value : Byte) : Core :=
  { core with registers := core.registers.set r value }

/-- The core with the flag register changed, where there is something to put in it. -/
def setFlag? (core : Core) : Option Byte → Core
  | none => core
  | some value => core.set Register.flag value

/-- Sets `Vx` to the result of an operation on `Vx` and `Vy`, then the flag. -/
def operate (dialect : Dialect) (op : Operation) (x y : Register) (core : Core) : Core :=
  let (result, flag) := op.apply dialect (core.get x) (core.get y)
  -- the flag comes last, so it is what remains when the target is `VF`
  ((core.set x result).setFlag? flag).next

def assign (x : Register) (value : Byte) (core : Core) : Core :=
  (core.set x value).next

def assignIndex (value : Word) (core : Core) : Core :=
  { core with index := value }.next

theorem get_set (core : Core) (r q : Register) (value : Byte) :
    (core.set r value).get q = if r = q then value else core.get q := by
  simp only [get, set, Fin.getElem_fin, Vector.getElem_set, Fin.ext_iff]

end Core

end ChipEight
