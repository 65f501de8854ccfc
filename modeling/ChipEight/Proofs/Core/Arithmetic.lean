import ChipEight.Proofs.Instruction.Dispute
/-!
# Operations on two registers

The operations of the family `8xy_` in numbers. Result and flag together hold the exact sum, and
the exact operand of a shift; a difference is taken modulo the size of a byte, and its flag tells
which of the operands is larger.

## Main definitions

- `Operation.Yields` — the result and the flag of an operation

## Main statements

- `Operation.yields_apply` — the operations on bytes
- `Core.get_flag_operate`, `Core.get_target_operate` — the registers that receive them
- `Core.operate_yields` — every operation, whichever registers it is applied to
-/

namespace ChipEight

/-- The operand of a shift as a number; which of the two it is depends on the dialect. -/
def Dialect.shiftSource (dialect : Dialect) (a b : Byte) : Nat :=
  if dialect.shiftsReadVy then b.toNat else a.toNat

/-- What the flag register holds behind bitwise logic if it held `kept` before. -/
def Dialect.flagOfLogic (dialect : Dialect) (kept : Byte) : Byte :=
  if dialect.logicClearsFlag then 0 else kept

/-- The result and the flag that an operation on the bytes `a` and `b` has, where the flag
register holds `kept` until the flag is written. -/
def Operation.Yields (dialect : Dialect) (a b kept result flag : Byte) : Operation → Prop
  | .copy => result = b ∧ flag = kept
  | .or => result = a ||| b ∧ flag = dialect.flagOfLogic kept
  | .and => result = a &&& b ∧ flag = dialect.flagOfLogic kept
  | .xor => result = a ^^^ b ∧ flag = dialect.flagOfLogic kept
  | .add => 256 * flag.toNat + result.toNat = a.toNat + b.toNat
  | .sub =>
    (result.toNat : Int) = (a.toNat - b.toNat : Int) % 256 ∧
      flag = if a.toNat > b.toNat then 1 else 0
  | .subFrom =>
    (result.toNat : Int) = (b.toNat - a.toNat : Int) % 256 ∧
      flag = if b.toNat > a.toNat then 1 else 0
  | .shiftRight => 2 * result.toNat + flag.toNat = dialect.shiftSource a b ∧ flag.toNat ≤ 1
  | .shiftLeft => 256 * flag.toNat + result.toNat = 2 * dialect.shiftSource a b

namespace Byte

theorem toNat_ofBool (condition : Bool) : (ofBool condition).toNat = condition.toNat := by
  cases condition <;> rfl

theorem ofBool_lt (a b : Byte) : ofBool (a < b) = if b.toNat > a.toNat then 1 else 0 := by
  simp [ofBool, UInt8.lt_iff_toNat_lt]

theorem toNat_sub_eq_emod (a b : Byte) :
    ((a - b).toNat : Int) = (a.toNat - b.toNat : Int) % 256 := by
  have := a.toNat_lt
  have := b.toNat_lt
  rw [UInt8.toNat_sub]
  omega

end Byte

namespace Operation

variable {dialect : Dialect}

theorem toNat_shiftOperand (a b : Byte) :
    (shiftOperand dialect a b).toNat = dialect.shiftSource a b := by
  rw [shiftOperand, Dialect.shiftSource]
  split <;> rfl

theorem getD_logicFlag (kept : Byte) :
    (logicFlag dialect).getD kept = dialect.flagOfLogic kept := by
  rw [logicFlag, Dialect.flagOfLogic]
  split <;> rfl

theorem yields_add (a b kept : Byte) :
    Yields dialect a b kept (a + b) (Byte.ofBool (256 ≤ a.toNat + b.toNat)) .add := by
  have := a.toNat_lt
  have := b.toNat_lt
  show 256 * (Byte.ofBool _).toNat + (a + b).toNat = a.toNat + b.toNat
  rw [Byte.toNat_ofBool, UInt8.toNat_add]
  by_cases carry : 256 ≤ a.toNat + b.toNat
  · rw [decide_eq_true carry, Bool.toNat_true]
    omega
  · rw [decide_eq_false carry, Bool.toNat_false]
    omega

/-- A shift drops one bit of its operand, and the flag holds it. -/
theorem yields_shiftRight (a b kept operand : Byte)
    (source : operand.toNat = dialect.shiftSource a b) :
    Yields dialect a b kept (operand / 2) (operand % 2) .shiftRight := by
  show 2 * (operand / 2).toNat + (operand % 2).toNat = _ ∧ (operand % 2).toNat ≤ 1
  rw [UInt8.toNat_div, UInt8.toNat_mod, ← source]
  show 2 * (operand.toNat / 2) + operand.toNat % 2 = _ ∧ operand.toNat % 2 ≤ 1
  omega

theorem yields_shiftLeft (a b kept operand : Byte)
    (source : operand.toNat = dialect.shiftSource a b) :
    Yields dialect a b kept (operand + operand) (operand / 128) .shiftLeft := by
  have := operand.toNat_lt
  show 256 * (operand / 128).toNat + (operand + operand).toNat = 2 * _
  rw [UInt8.toNat_div, UInt8.toNat_add, ← source]
  show 256 * (operand.toNat / 128) + (operand.toNat + operand.toNat) % 256 = 2 * operand.toNat
  omega

/-- The result of an operation, and its flag or what the flag register keeps. -/
theorem yields_apply (dialect : Dialect) (op : Operation) (a b kept : Byte) :
    op.Yields dialect a b kept (op.apply dialect a b).1
      ((op.apply dialect a b).2.getD kept) := by
  cases op with
  | copy => exact ⟨rfl, rfl⟩
  | or | and | xor => exact ⟨rfl, getD_logicFlag kept⟩
  | add => exact yields_add a b kept
  | sub => exact ⟨Byte.toNat_sub_eq_emod a b, Byte.ofBool_lt b a⟩
  | subFrom => exact ⟨Byte.toNat_sub_eq_emod b a, Byte.ofBool_lt a b⟩
  | shiftRight => exact yields_shiftRight a b kept _ (toNat_shiftOperand a b)
  | shiftLeft => exact yields_shiftLeft a b kept _ (toNat_shiftOperand a b)

end Operation

namespace Core

variable {core : Core} {dialect : Dialect} {op : Operation} {x y : Register}

theorem get_setFlag? (core : Core) (flag : Option Byte) :
    (core.setFlag? flag).get Register.flag = flag.getD (core.get Register.flag) := by
  cases flag with
  | none => rfl
  | some value =>
    rw [setFlag?, get_set, if_pos rfl]
    rfl

/-- The flag comes last: it is written over the result where both go to the flag register. -/
theorem get_flag_operate :
    (core.operate dialect op x y).get Register.flag
      = (op.apply dialect (core.get x) (core.get y)).2.getD
          ((core.set x (op.apply dialect (core.get x) (core.get y)).1).get Register.flag) :=
  get_setFlag? _ _

theorem get_target_operate (target : x ≠ Register.flag) :
    (core.operate dialect op x y).get x = (op.apply dialect (core.get x) (core.get y)).1 := by
  rw [get_operate_of_ne_flag target, get_set, if_pos rfl]

/-- An operation always runs. It moves the program counter on by one instruction and changes
nothing but its target and the flag register, and what these hold behind it is told by the
values that its operands had before, also where one of them is the flag register. If the target
is the flag register, the flag is written over the result, and an operation that leaves the flag
alone leaves the result there. -/
theorem operate_yields (dialect : Dialect) (op : Operation) (x y : Register) (core : Core) :
    ∃ registers : Vector Byte 16,
      let after : Core := { core with registers, pc := core.pc + 2 }
      (∀ byte, (Instruction.operate op x y).execute dialect byte core = .ok (.next after)) ∧
      (∀ r, r ≠ x → r ≠ Register.flag → after.get r = core.get r) ∧
      (x ≠ Register.flag → op.Yields dialect (core.get x) (core.get y) (core.get Register.flag)
        (after.get x) (after.get Register.flag)) ∧
      (x = Register.flag → ∃ result, op.Yields dialect (core.get x) (core.get y) result
        result (after.get Register.flag)) := by
  obtain ⟨registers, operated⟩ := operate_eq dialect op x y core
  refine ⟨registers, ?_⟩
  rw [← operated]
  refine ⟨fun byte => rfl, fun r other flag => ?_, fun target => ?_, fun target => ?_⟩
  · exact get_operate other (Or.inr flag) y core
  · have kept (result : Byte) : (core.set x result).get Register.flag = core.get Register.flag := by
      rw [get_set, if_neg target]
    rw [get_target_operate target, get_flag_operate, kept]
    exact op.yields_apply dialect _ _ _
  · refine ⟨(op.apply dialect (core.get x) (core.get y)).1, ?_⟩
    have written (result : Byte) : (core.set x result).get Register.flag = result := by
      rw [get_set, if_pos target]
    rw [get_flag_operate, written]
    exact op.yields_apply dialect _ _ _

end Core

end ChipEight
