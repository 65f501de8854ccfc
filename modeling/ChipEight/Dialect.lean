/-!
# Dialects

Machines of this family disagree on a few instructions. A dialect fixes these
points.

## Main definitions

- `Dialect` — the three points
- `Dialect.modern`, `Dialect.cosmacVip` — the reading of later interpreters and
  that of the first machine
-/

namespace ChipEight

structure Dialect where
  /-- The shifts take their operand from `Vy` and not from `Vx`. -/
  shiftsReadVy : Bool := false
  /-- Or, and, and exclusive or set the flag register to zero. -/
  logicClearsFlag : Bool := false
  /-- Storing and restoring registers moves the index behind the bytes. -/
  transfersMoveIndex : Bool := false
  deriving DecidableEq, Repr

def Dialect.modern : Dialect := ⟨false, false, false⟩

def Dialect.cosmacVip : Dialect := ⟨true, true, true⟩

end ChipEight
