import ChipEight.Core.Panel
import ChipEight.Instruction.Assembly
/-!
# Events

What the machine and its host report while they work, as data: an event says
what happened, and its level, message and fields are read off it.

## Main definitions

- `Level`, `Level.shows` — how detailed a report is, and what a chosen level shows
- `TraceLine` — an executed instruction and the registers after it
- `Event` — the events
- `Event.level`, `Event.message`, `Event.fields` — how an event is reported
-/

namespace ChipEight

inductive Level where
  | error
  | warn
  | info
  | debug
  | trace
  deriving DecidableEq, Repr

namespace Level

/-- The rank of a level; a more detailed one has the higher rank. -/
def rank : Level → Nat
  | .error => 0
  | .warn => 1
  | .info => 2
  | .debug => 3
  | .trace => 4

/-- Whether a log kept down to the level `detail` shows a report of level `level`. -/
def shows (detail level : Level) : Bool :=
  level.rank ≤ detail.rank

def text : Level → String
  | .error => "ERROR"
  | .warn => "WARN"
  | .info => "INFO"
  | .debug => "DEBUG"
  | .trace => "TRACE"

end Level

structure TraceLine where
  opcode : Word
  instruction : Instruction
  pc : Word
  index : Word
  registers : Vector Byte 16
  deriving DecidableEq, Repr

def TraceLine.text (line : TraceLine) : String :=
  Text.hex 4 line.opcode.toNat ++ " " ++ Text.padRight 16 line.instruction.text
    ++ " -> pc" ++ Text.hex 4 line.pc.toNat ++ " i" ++ Text.hex 4 line.index.toNat
    ++ " v[" ++ String.intercalate ", " (line.registers.toList.map fun v => Text.hex 2 v.toNat)
    ++ "]"

inductive Event where
  | loaded (bytes : Nat)
  | reset
  | controlChanged (before after : Control)
  /-- A frame ended because the instruction at `pc` waits for a key. -/
  | waitingForKey (pc : Word)
  /-- An instruction failed and was skipped; `opcode` is the word fetched last. -/
  | skipped (opcode : Word) (fault : Fault)
  | executed (site : Word) (line : TraceLine)
  | frame (number attempted : Nat) (panel : Panel)
  | beep (number : Nat) (on : Bool)
  deriving DecidableEq, Repr

inductive FieldValue where
  | number (n : Nat)
  | text (s : String)
  deriving DecidableEq, Repr

namespace Event

def level : Event → Level
  | .loaded _ => .info
  | .reset => .info
  | .controlChanged _ _ => .debug
  | .waitingForKey _ => .debug
  | .skipped _ _ => .warn
  | .executed _ _ => .trace
  | .frame _ _ _ => .debug
  | .beep _ _ => .info

def message : Event → String
  | .loaded _ => "loaded program"
  | .reset => "machine reset"
  | .controlChanged _ _ => "control state changed"
  | .waitingForKey _ => "waiting for a key"
  | .skipped _ fault => "skipped instruction: " ++ fault.message
  | .executed _ line => line.text
  | .frame _ _ panel => "\n" ++ panel.text
  | .beep _ on => if on then "beep on" else "beep off"

def fields : Event → List (String × FieldValue)
  | .loaded bytes => [("bytes", .number bytes)]
  | .reset => []
  | .controlChanged before after => [("from", .text before.text), ("to", .text after.text)]
  | .waitingForKey pc => [("pc", .number pc.toNat)]
  | .skipped opcode _ => [("opcode", .number opcode.toNat)]
  | .executed site _ => [("at", .number site.toNat)]
  | .frame number attempted _ => [("frame", .number number), ("executed", .number attempted)]
  | .beep number _ => [("frame", .number number)]

end Event

end ChipEight
