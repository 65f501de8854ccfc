import ChipEight.Core.Drawing
import ChipEight.Core.Transfer
import ChipEight.Core.Devices
/-!
# Execution

What each instruction does to the core.

## Main definitions

- `Outcome` — a changed core, or a wait for a key
- `Instruction.execute` — the effect of an instruction
- `Instruction.drawsRandom` — whether it uses the random byte

## Design notes

Execution is a function of the core, the dialect and one random byte. The byte is
always there to be used, and only `RND` uses it; who supplies it asks
`drawsRandom` before taking one from a generator.
-/

namespace ChipEight

inductive Outcome where
  | next (core : Core)
  | awaitingKey
  deriving DecidableEq, Repr

namespace Instruction

def drawsRandom : Instruction → Bool
  | .random _ _ => true
  | _ => false

/-- The effect of an instruction. -/
def execute (dialect : Dialect) (byte : Byte) (core : Core) :
    Instruction → Except Fault Outcome
  | .clear => .ok (.next core.clearScreen)
  | .ret => core.ret.map .next
  | .sys target => .ok (.next (core.jump (.ofAddress target)))
  | .jump target => .ok (.next (core.jump (.ofAddress target)))
  | .call target => (core.call (.ofAddress target)).map .next
  | .skipEqByte x immediate => .ok (.next (core.skipIf (core.get x = immediate)))
  | .skipNeByte x immediate => .ok (.next (core.skipIf (core.get x ≠ immediate)))
  | .skipEq x y => .ok (.next (core.skipIf (core.get x = core.get y)))
  | .loadByte x immediate => .ok (.next (core.assign x immediate))
  | .addByte x immediate => .ok (.next (core.assign x (core.get x + immediate)))
  | .operate op x y => .ok (.next (core.operate dialect op x y))
  | .skipNe x y => .ok (.next (core.skipIf (core.get x ≠ core.get y)))
  | .setIndex target => .ok (.next (core.assignIndex (.ofAddress target)))
  | .jumpOffset target =>
    .ok (.next (core.jump (.ofAddress target + (core.get 0).toUInt16)))
  | .random x mask => .ok (.next (core.assign x (byte &&& mask)))
  | .draw x y height => (core.draw x y height).map .next
  | .skipKey x => .ok (.next (core.skipIf (core.holdsKey x)))
  | .skipNoKey x => .ok (.next (core.skipIf (!core.holdsKey x)))
  | .getDelay x => .ok (.next (core.assign x core.delay))
  | .awaitKey x =>
    match core.receiveKey? x with
    | some after => .ok (.next after)
    | none => .ok .awaitingKey
  | .setDelay x => .ok (.next (core.setDelay x))
  | .setSound x => .ok (.next (core.setSound x))
  | .addIndex x => .ok (.next (core.addIndex x))
  | .pointGlyph x => .ok (.next (core.pointGlyph x))
  | .decimal x => (core.decimal x).map .next
  | .store x => (core.store dialect x).map .next
  | .restore x => (core.restore dialect x).map .next

end Instruction

end ChipEight
