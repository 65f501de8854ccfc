import ChipEight.Core.Basic
/-!
# The front panel

What a debugger shows of the core: everything but memory and the picture.

## Main definitions

- `Panel` — the values shown
- `Core.panel` — the panel of a core
- `Panel.lines`, `Panel.text` — the panel as text

## Design notes

The text has twenty-two lines: one header, four rows of registers, sixteen stack
slots from the top down and the held keys. The last line is not ended.
-/

namespace ChipEight

structure Panel where
  opcode : Word
  pc : Word
  sp : Byte
  index : Word
  delay : Byte
  sound : Byte
  registers : Vector Byte 16
  stack : Vector Word Core.stackSize
  keypad : Keypad
  control : Control
  deriving DecidableEq, Repr

def Core.panel (core : Core) : Panel where
  opcode := core.opcode
  pc := core.pc
  sp := core.sp
  index := core.index
  delay := core.delay
  sound := core.sound
  registers := core.registers
  stack := core.stack
  keypad := core.keypad
  control := core.control

namespace Panel

/-- The words, the timers and the control state in one line. -/
def header (panel : Panel) : String :=
  "OP " ++ Text.hex 4 panel.opcode.toNat
    ++ "  PC " ++ Text.hex 4 panel.pc.toNat
    ++ "  SP " ++ Text.padLeft 2 '0' (Nat.repr panel.sp.toNat)
    ++ "  I " ++ Text.hex 4 panel.index.toNat
    ++ "  DT " ++ Text.padLeft 3 ' ' (Nat.repr panel.delay.toNat)
    ++ "  ST " ++ Text.padLeft 3 ' ' (Nat.repr panel.sound.toNat)
    ++ "  " ++ panel.control.text

/-- One register with its name, and two blanks behind it. -/
def registerEntry (panel : Panel) (r : Register) : String :=
  "V" ++ Text.hex 1 r.val ++ " " ++ Text.hex 2 (panel.registers.get r).toNat ++ "  "

def registerRow (panel : Panel) (row : Fin 4) : String :=
  String.join <| (List.finRange 4).map fun column =>
    panel.registerEntry ⟨row.val * 4 + column.val, by omega⟩

/-- A slot of the call stack; the first free one is marked. -/
def stackLine (panel : Panel) (slot : Fin Core.stackSize) : String :=
  Text.padLeft 2 '0' (Nat.repr slot.val) ++ ": " ++ Text.hex 4 panel.stack[slot].toNat
    ++ (if slot.val = panel.sp.toNat then " <- SP" else "")

def keysLine (panel : Panel) : String :=
  "keys [" ++ String.intercalate " " (panel.keypad.held.map fun key => Text.hex 1 key.val) ++ "]"

def lines (panel : Panel) : List String :=
  panel.header
    :: (List.finRange 4).map panel.registerRow
    ++ (List.finRange Core.stackSize).reverse.map panel.stackLine
    ++ [panel.keysLine]

def text (panel : Panel) : String :=
  String.intercalate "\n" panel.lines

end Panel

end ChipEight
