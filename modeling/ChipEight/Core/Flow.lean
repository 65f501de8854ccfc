import ChipEight.Core.Basic
/-!
# Flow of control

How the program counter and the call stack move.

## Main definitions

- `Core.next`, `Core.skipIf` — on to the next instruction, or to the one after it
- `Core.jump` — on to an address
- `Core.call`, `Core.ret` — into a subroutine and back

## Design notes

A call stores its own address, and a return continues behind it. The last slot
of the stack stays unused: fifteen calls may nest.
-/

namespace ChipEight.Core

def next (core : Core) : Core :=
  { core with pc := core.pc + 2 }

/-- Continues with the instruction after the next one if the condition holds. -/
def skipIf (condition : Bool) (core : Core) : Core :=
  { core with pc := if condition then core.pc + 4 else core.pc + 2 }

def jump (target : Word) (core : Core) : Core :=
  { core with pc := target }

/-- Puts the address of the call on the stack and continues at `target`. -/
def call (target : Word) (core : Core) : Except Fault Core :=
  if h : core.sp.toNat + 1 < stackSize then
    .ok { core with
      pc := target
      sp := core.sp + 1
      stack := core.stack.set core.sp.toNat core.pc }
  else
    .error (.stackOverflow core.pc)

/-- Takes the address of a call from the stack and continues behind it. -/
def ret (core : Core) : Except Fault Core :=
  if core.sp = 0 then
    .error (.stackUnderflow core.pc)
  else if h : core.sp.toNat - 1 < stackSize then
    .ok { core with
      pc := core.stack[core.sp.toNat - 1] + 2
      sp := core.sp - 1 }
  else
    .error (.strayStackPointer core.pc core.sp)

end ChipEight.Core
