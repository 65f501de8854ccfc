import ChipEight.Memory.Layout
import ChipEight.Screen.Basic
import ChipEight.Keypad.Basic
/-!
# The core

Everything that instructions read and change, and what happens to it apart from
instructions: it is switched on, loaded and reset, and the next word is fetched.

## Main definitions

- `Control` — whether instructions are being fetched
- `Core` — the state of the machine
- `Core.fresh`, `Core.load`, `Core.reset` — switching on, loading, resetting
- `Core.fetch` — the word at the program counter
- `Core.depth`, `Core.calls` — the call stack as a list

## Design notes

The program counter, the index and the stack pointer are plain words: a core may
be set up with values that no program reaches, and every operation is defined on
them.
-/

namespace ChipEight

inductive Control where
  | running
  /-- Nothing is fetched until the machine is resumed. -/
  | paused
  /-- Nothing is fetched until the machine is reset. -/
  | halted
  deriving DecidableEq, Repr

def Control.text : Control → String
  | .running => "Running"
  | .paused => "Paused"
  | .halted => "Halted"

abbrev Core.stackSize : Nat := 16

/-- The state of the machine. -/
structure Core where
  registers : Vector Byte 16
  index : Word
  pc : Word
  sp : Byte
  delay : Byte
  sound : Byte
  /-- The slots of the call stack, oldest entry first. An entry is the address of
  the call itself. -/
  stack : Vector Word Core.stackSize
  memory : Memory
  screen : Screen
  keypad : Keypad
  opcode : Word
  /-- The picture was drawn on since it was last handed out. -/
  redraw : Bool
  control : Control
  deriving DecidableEq, Repr

namespace Core

def fresh : Core where
  registers := Vector.replicate 16 0
  index := 0
  pc := UInt16.ofNat Memory.programStart
  sp := 0
  delay := 0
  sound := 0
  stack := Vector.replicate stackSize 0
  memory := Memory.fresh
  screen := Screen.blank
  keypad := Keypad.released
  opcode := 0
  redraw := false
  control := .running

def load (core : Core) (program : List Byte) : Except LoadError Core :=
  (core.memory.load program).map fun memory => { core with memory }

/-- A fresh core that keeps the memory, and with it the program, and the timers. -/
def reset (core : Core) : Core :=
  { fresh with memory := core.memory, delay := core.delay, sound := core.sound }

def fetch (core : Core) : Except Fault Word :=
  (Span.locate core.pc 2).map fun span =>
    let bytes := core.memory.read span
    Word.ofBytes bytes[0] bytes[1]

/-- The beeper sounds as long as the sound timer runs. -/
def sounding (core : Core) : Bool :=
  core.sound != 0

def tick (core : Core) : Core :=
  { core with
    delay := if core.delay = 0 then 0 else core.delay - 1
    sound := if core.sound = 0 then 0 else core.sound - 1 }

def depth (core : Core) : Nat :=
  core.sp.toNat

/-- The addresses of the calls that have not returned, oldest first. -/
def calls (core : Core) : List Word :=
  core.stack.toList.take core.depth

end Core

end ChipEight
