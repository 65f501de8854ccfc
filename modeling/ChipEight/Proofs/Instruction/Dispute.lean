import ChipEight.Proofs.Instruction.WriteSet
/-!
# Disputed instructions

What the dialect decides. Each of its three points belongs to a few instructions; another
choice at a point shows in these alone, and there in a register, in the flag or in the index.

## Main definitions

- `Operation.disputed`, `Instruction.disputed` — what two dialects disagree about
- `Core.SameButRegisters`, `Core.SameButIndex` — cores that some registers or the index alone
  tells apart
- `Outcome.Ran` — two outcomes of instructions that ran

## Main statements

- `Instruction.execute_eq_of_undisputed` — an instruction about which two dialects agree
- `Instruction.shift_of_changed`, `Instruction.logic_of_changed`,
  `Instruction.transfer_of_changed` — where the choice at one point shows
-/

namespace ChipEight

/-- Whether two dialects disagree about an operation. -/
def Operation.disputed (first second : Dialect) : Operation → Bool
  | .shiftRight | .shiftLeft => first.shiftsReadVy != second.shiftsReadVy
  | .or | .and | .xor => first.logicClearsFlag != second.logicClearsFlag
  | .copy | .add | .sub | .subFrom => false

/-- Whether two dialects disagree about an instruction. -/
def Instruction.disputed (first second : Dialect) : Instruction → Bool
  | .operate op _ _ => op.disputed first second
  | .store _ | .restore _ => first.transfersMoveIndex != second.transfersMoveIndex
  | _ => false

/-- The listed registers alone tell the cores apart. -/
def Core.SameButRegisters (changed : List Register) (first second : Core) : Prop :=
  second = { first with registers := second.registers } ∧
    ∀ r, r ∉ changed → second.get r = first.get r

/-- The index alone tells the cores apart. -/
def Core.SameButIndex (first second : Core) : Prop :=
  second = { first with index := second.index }

/-- Both outcomes are those of an instruction that ran, and the cores are related. -/
def Outcome.Ran (Like : Core → Core → Prop) (one other : Except Fault Outcome) : Prop :=
  ∃ first second, one = .ok (.next first) ∧ other = .ok (.next second) ∧ Like first second

variable {dialect other : Dialect} {byte : Byte} {core : Core} {instruction : Instruction}

theorem Operation.apply_eq_of_undisputed {op : Operation} (h : op.disputed dialect other = false)
    (vx vy : Byte) : op.apply other vx vy = op.apply dialect vx vy := by
  cases op with
  | or | and | xor =>
    have same : dialect.logicClearsFlag = other.logicClearsFlag := by simpa [disputed] using h
    simp only [apply, logicFlag, same]
  | shiftRight | shiftLeft =>
    have same : dialect.shiftsReadVy = other.shiftsReadVy := by simpa [disputed] using h
    simp only [apply, shiftOperand, same]
  | _ => rfl

/-- The operands of a shift do not matter where they are equal. -/
theorem Operation.apply_self_of_shift {op : Operation} (shift : op = .shiftRight ∨ op = .shiftLeft)
    (dialect other : Dialect) (v : Byte) : op.apply other v v = op.apply dialect v v := by
  rcases shift with rfl | rfl <;> simp [apply, shiftOperand]

/-- The dialect decides what logic leaves in the flag, but not its result. -/
theorem Operation.result_of_logic {op : Operation} (logic : op = .or ∨ op = .and ∨ op = .xor)
    (dialect other : Dialect) (vx vy : Byte) :
    (op.apply other vx vy).1 = (op.apply dialect vx vy).1 := by
  rcases logic with rfl | rfl | rfl <;> rfl

theorem Operation.shift_of_disputed {op : Operation} {flag : Bool}
    (h : op.disputed dialect { dialect with shiftsReadVy := flag } = true) :
    op = .shiftRight ∨ op = .shiftLeft := by
  cases op with
  | shiftRight => exact Or.inl rfl
  | shiftLeft => exact Or.inr rfl
  | or | and | xor => simp [disputed] at h
  | _ => cases h

theorem Operation.logic_of_disputed {op : Operation} {flag : Bool}
    (h : op.disputed dialect { dialect with logicClearsFlag := flag } = true) :
    op = .or ∨ op = .and ∨ op = .xor := by
  cases op with
  | or => exact Or.inl rfl
  | and => exact Or.inr (Or.inl rfl)
  | xor => exact Or.inr (Or.inr rfl)
  | shiftRight | shiftLeft => simp [disputed] at h
  | _ => cases h

namespace Core

theorem sameButRegisters_operate {changed : List Register} {op : Operation} {x y : Register}
    (h : ∀ r, r ∉ changed →
      (core.operate other op x y).get r = (core.operate dialect op x y).get r) :
    SameButRegisters changed (core.operate dialect op x y) (core.operate other op x y) := by
  obtain ⟨one, hone⟩ := operate_eq dialect op x y core
  obtain ⟨two, htwo⟩ := operate_eq other op x y core
  refine ⟨?_, h⟩
  rw [hone, htwo]

theorem get_operate_of_ne_flag {r : Register} (h : r ≠ Register.flag) (dialect : Dialect)
    (op : Operation) (x y : Register) (core : Core) :
    (core.operate dialect op x y).get r
      = (core.set x (op.apply dialect (core.get x) (core.get y)).1).get r :=
  get_setFlag?_of_ne h _ _

/-- In any two dialects an operation leaves the registers apart from its target and the flag
alone. -/
theorem sameButRegisters_operate_of_any (dialect other : Dialect) (op : Operation)
    (x y : Register) (core : Core) : SameButRegisters [x, Register.flag]
      (core.operate dialect op x y) (core.operate other op x y) := by
  refine sameButRegisters_operate fun r outside => ?_
  simp only [List.mem_cons, List.not_mem_nil, or_false, not_or] at outside
  obtain ⟨target, flag⟩ := outside
  rw [get_operate target (Or.inr flag), get_operate target (Or.inr flag)]

theorem sameButRegisters_operate_of_logic {op : Operation}
    (logic : op = .or ∨ op = .and ∨ op = .xor) (dialect other : Dialect) (x y : Register)
    (core : Core) : SameButRegisters [Register.flag]
      (core.operate dialect op x y) (core.operate other op x y) := by
  refine sameButRegisters_operate fun r outside => ?_
  rw [List.mem_singleton] at outside
  rw [get_operate_of_ne_flag outside, get_operate_of_ne_flag outside,
    Operation.result_of_logic logic]

end Core

namespace Instruction

/-- Two dialects that do not disagree about an instruction let it come to the same. -/
theorem execute_eq_of_undisputed (h : instruction.disputed dialect other = false) :
    instruction.execute other byte core = instruction.execute dialect byte core := by
  cases instruction with
  | operate op x y =>
    have same : op.disputed dialect other = false := h
    simp only [execute, Core.operate, Operation.apply_eq_of_undisputed same]
  | store x | restore x =>
    have same : dialect.transfersMoveIndex = other.transfersMoveIndex := by
      simpa [disputed] using h
    simp only [execute, Core.store, Core.restore, Core.indexAfter, same]
  | _ => rfl

@[simp] theorem disputed_self (dialect : Dialect) (instruction : Instruction) :
    instruction.disputed dialect dialect = false := by
  cases instruction with
  | operate op x y => cases op <;> simp [disputed, Operation.disputed]
  | store x | restore x => simp [disputed]
  | _ => rfl

theorem disputed_of_changed
    (changed : instruction.execute other byte core ≠ instruction.execute dialect byte core) :
    instruction.disputed dialect other = true := by
  cases agreed : instruction.disputed dialect other with
  | true => rfl
  | false => exact absurd (execute_eq_of_undisputed agreed) changed

/-- Dialects disagree about operations and about transfers. -/
theorem operate_or_transfer_of_disputed (h : instruction.disputed dialect other = true) :
    (∃ op x y, instruction = .operate op x y ∧ op.disputed dialect other = true) ∨
      ∃ x, (instruction = .store x ∨ instruction = .restore x) ∧
        dialect.transfersMoveIndex ≠ other.transfersMoveIndex := by
  cases instruction with
  | operate op x y => exact Or.inl ⟨op, x, y, rfl, h⟩
  | store x => exact Or.inr ⟨x, Or.inl rfl, bne_iff_ne.mp h⟩
  | restore x => exact Or.inr ⟨x, Or.inr rfl, bne_iff_ne.mp h⟩
  | _ => cases h

/-- Where a shift takes its operand from shows in shifts of unequal registers, in the target
and the flag. -/
theorem shift_of_changed {flag : Bool}
    (changed : instruction.execute { dialect with shiftsReadVy := flag } byte core
      ≠ instruction.execute dialect byte core) :
    ∃ op x y, instruction = .operate op x y ∧ (op = .shiftRight ∨ op = .shiftLeft) ∧
      core.get x ≠ core.get y ∧
      Outcome.Ran (Core.SameButRegisters [x, Register.flag])
        (instruction.execute dialect byte core)
        (instruction.execute { dialect with shiftsReadVy := flag } byte core) := by
  obtain ⟨op, x, y, rfl, disputed⟩ | ⟨x, _, moved⟩ :=
    operate_or_transfer_of_disputed (disputed_of_changed changed)
  · have shift := Operation.shift_of_disputed disputed
    refine ⟨op, x, y, rfl, shift, fun equal => changed ?_, _, _, rfl, rfl, ?_⟩
    · rw [execute, execute, Core.operate, Core.operate, equal,
        Operation.apply_self_of_shift shift]
    · exact Core.sameButRegisters_operate_of_any _ _ op x y core
  · exact absurd rfl moved

/-- Whether logic clears the flag shows in the flag behind logic. -/
theorem logic_of_changed {flag : Bool}
    (changed : instruction.execute { dialect with logicClearsFlag := flag } byte core
      ≠ instruction.execute dialect byte core) :
    ∃ op x y, instruction = .operate op x y ∧ (op = .or ∨ op = .and ∨ op = .xor) ∧
      Outcome.Ran (Core.SameButRegisters [Register.flag])
        (instruction.execute dialect byte core)
        (instruction.execute { dialect with logicClearsFlag := flag } byte core) := by
  obtain ⟨op, x, y, rfl, disputed⟩ | ⟨x, _, moved⟩ :=
    operate_or_transfer_of_disputed (disputed_of_changed changed)
  · have logic := Operation.logic_of_disputed disputed
    exact ⟨op, x, y, rfl, logic, _, _, rfl, rfl,
      Core.sameButRegisters_operate_of_logic logic _ _ x y core⟩
  · exact absurd rfl moved

/-- Whether transfers move the index shows in the index behind a transfer that ran. -/
theorem transfer_of_changed {flag : Bool}
    (changed : instruction.execute { dialect with transfersMoveIndex := flag } byte core
      ≠ instruction.execute dialect byte core) :
    ∃ x, (instruction = .store x ∨ instruction = .restore x) ∧
      Outcome.Ran Core.SameButIndex
        (instruction.execute dialect byte core)
        (instruction.execute { dialect with transfersMoveIndex := flag } byte core) := by
  obtain ⟨op, x, y, rfl, _⟩ | ⟨x, transfer, _⟩ :=
    operate_or_transfer_of_disputed (disputed_of_changed changed)
  · exact absurd rfl changed
  refine ⟨x, transfer, ?_⟩
  rcases transfer with rfl | rfl
  · simp only [execute, Core.store] at changed ⊢
    cases located : Span.locate core.index (x.val + 1) with
    | error fault => simp [located, Except.map] at changed
    | ok span => exact ⟨_, _, rfl, rfl, rfl⟩
  · simp only [execute, Core.restore] at changed ⊢
    cases located : Span.locate core.index (x.val + 1) with
    | error fault => simp [located, Except.map] at changed
    | ok span => exact ⟨_, _, rfl, rfl, rfl⟩

end Instruction

end ChipEight
