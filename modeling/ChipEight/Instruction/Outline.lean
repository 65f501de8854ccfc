import ChipEight.Instruction.Basic
/-!
# Outlines

An instruction spelled out for inspection: its kind, and every operand with its
role and its value in decimal, such as `LoadByte { x: 1, kk: 171 }`.

## Main definitions

- `Outline` — a kind with named numbers
- `Instruction.outline` — the outline of an instruction
- `Outline.text` — the outline as a string
-/

namespace ChipEight

structure Outline where
  kind : String
  operands : List (String × Nat) := []
  deriving DecidableEq, Repr

/-- The outline as text: the operands in braces, if there are any. -/
def Outline.text (outline : Outline) : String :=
  match outline.operands with
  | [] => outline.kind
  | operands =>
    outline.kind ++ " \x7b "
      ++ String.intercalate ", " (operands.map fun (role, value) => role ++ ": " ++ Nat.repr value)
      ++ " \x7d"

def Operation.kind : Operation → String
  | .copy => "LoadReg"
  | .or => "Or"
  | .and => "And"
  | .xor => "Xor"
  | .add => "AddReg"
  | .sub => "Sub"
  | .shiftRight => "Shr"
  | .subFrom => "SubN"
  | .shiftLeft => "Shl"

def Instruction.outline : Instruction → Outline
  | .clear => ⟨"Cls", []⟩
  | .ret => ⟨"Ret", []⟩
  | .sys target => ⟨"Sys", [("addr", target.val)]⟩
  | .jump target => ⟨"Jump", [("addr", target.val)]⟩
  | .call target => ⟨"Call", [("addr", target.val)]⟩
  | .skipEqByte x byte => ⟨"SkipEqByte", [("x", x.val), ("kk", byte.toNat)]⟩
  | .skipNeByte x byte => ⟨"SkipNeByte", [("x", x.val), ("kk", byte.toNat)]⟩
  | .skipEq x y => ⟨"SkipEqReg", [("x", x.val), ("y", y.val)]⟩
  | .loadByte x byte => ⟨"LoadByte", [("x", x.val), ("kk", byte.toNat)]⟩
  | .addByte x byte => ⟨"AddByte", [("x", x.val), ("kk", byte.toNat)]⟩
  | .operate op x y => ⟨op.kind, [("x", x.val), ("y", y.val)]⟩
  | .skipNe x y => ⟨"SkipNeReg", [("x", x.val), ("y", y.val)]⟩
  | .setIndex target => ⟨"LoadI", [("addr", target.val)]⟩
  | .jumpOffset target => ⟨"JumpV0", [("addr", target.val)]⟩
  | .random x mask => ⟨"Rand", [("x", x.val), ("kk", mask.toNat)]⟩
  | .draw x y height => ⟨"Draw", [("x", x.val), ("y", y.val), ("n", height.val)]⟩
  | .skipKey x => ⟨"SkipKey", [("x", x.val)]⟩
  | .skipNoKey x => ⟨"SkipNoKey", [("x", x.val)]⟩
  | .getDelay x => ⟨"LoadDelay", [("x", x.val)]⟩
  | .awaitKey x => ⟨"WaitKey", [("x", x.val)]⟩
  | .setDelay x => ⟨"SetDelay", [("x", x.val)]⟩
  | .setSound x => ⟨"SetSound", [("x", x.val)]⟩
  | .addIndex x => ⟨"AddI", [("x", x.val)]⟩
  | .pointGlyph x => ⟨"LoadFont", [("x", x.val)]⟩
  | .decimal x => ⟨"Bcd", [("x", x.val)]⟩
  | .store x => ⟨"Store", [("x", x.val)]⟩
  | .restore x => ⟨"Read", [("x", x.val)]⟩

end ChipEight
