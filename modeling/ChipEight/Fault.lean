import ChipEight.Word
import ChipEight.Text.Numeral
/-!
# Faults

What can go wrong while an instruction is fetched, decoded or executed: each
cause is a constructor with the data that explains it, and the wording is in
one place.

## Main definitions

- `Fault` — why an instruction could not run
- `Fault.message` — its text
- `Word.text` — a word as it appears in texts
-/

namespace ChipEight

/-- Why an instruction could not run. -/
inductive Fault where
  | stackOverflow (pc : Word)
  | stackUnderflow (pc : Word)
  | unknownInstruction (opcode : Word)
  /-- An access reached past the end of memory; `address` is the first address
  of the access that lies outside. -/
  | addressOutOfRange (address : Word)
  /-- A `RET` at `pc` found a stack pointer that no sequence of calls produces,
  with the return address beyond the last slot. -/
  | strayStackPointer (pc : Word) (sp : Byte)
  deriving DecidableEq, Repr

def Word.text (w : Word) : String :=
  "0x" ++ Text.hex 4 w.toNat

def Fault.message : Fault → String
  | .stackOverflow pc => "stack overflow: CALL at " ++ pc.text ++ " with a full call stack"
  | .stackUnderflow pc => "stack underflow: RET at " ++ pc.text ++ " with an empty call stack"
  | .unknownInstruction opcode => "unknown instruction " ++ opcode.text
  | .addressOutOfRange address => "memory access out of range at address " ++ address.text
  | .strayStackPointer pc sp =>
    "stray stack pointer: RET at " ++ pc.text ++ " with " ++ Nat.repr sp.toNat ++ " entries"

end ChipEight
