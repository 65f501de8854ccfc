import ChipEight.Proofs.Core.Range
/-!
# Write sets

What an instruction that ran has left alone. For each part of the core there is a set of
instructions that may change it, and for memory, stack and registers also the set of
places that they may change.

## Main definitions

- `Instruction.draws`, `Instruction.movesIndex` — the instructions that touch the picture,
  and those that move the index
- `Instruction.Stores` — the bytes of memory that an instruction writes
- `Instruction.writes` — the registers that an instruction writes
- `WriteSet` — what may differ behind an instruction

## Main statements

- `Effect.redraw_eq`, `Effect.screen_eq`, `Effect.stores_of_memory_ne`, `Effect.index_eq` and
  others — one part of the core each
- `get_of_execute` — the registers
- `writeSet_of_execute` — all parts together
-/

namespace ChipEight

namespace Instruction

/-- Whether an instruction touches the picture. -/
def draws : Instruction → Bool
  | .clear | .draw _ _ _ => true
  | _ => false

/-- Whether an instruction moves the index, which depends on the dialect. -/
def movesIndex (dialect : Dialect) : Instruction → Bool
  | .setIndex _ | .addIndex _ | .pointGlyph _ => true
  | .store _ | .restore _ => dialect.transfersMoveIndex
  | _ => false

/-- The instruction writes the byte at `address` when it runs with this index. -/
def Stores (index : Word) (address : Nat) : Instruction → Prop
  | .decimal _ => index.toNat ≤ address ∧ address < index.toNat + 3
  | .store x => index.toNat ≤ address ∧ address ≤ index.toNat + x.val
  | _ => False

end Instruction

/-- Whether an operation puts something in the flag register, which depends on the
dialect. -/
def Operation.setsFlag (dialect : Dialect) : Operation → Bool
  | .copy => false
  | .or | .and | .xor => dialect.logicClearsFlag
  | .add | .sub | .shiftRight | .subFrom | .shiftLeft => true

/-- Whether an instruction writes a register, which depends on the dialect. -/
def Instruction.writes (dialect : Dialect) : Instruction → Register → Bool
  | .loadByte x _, r | .addByte x _, r | .random x _, r | .getDelay x, r | .awaitKey x, r => r = x
  | .operate op x _, r => r = x || (op.setsFlag dialect && r = Register.flag)
  | .draw _ _ _, r => r = Register.flag
  | .restore x, r => r ≤ x
  | _, _ => false

/-- What may differ between the core before an instruction that ran and the core behind it. -/
structure WriteSet (dialect : Dialect) (core : Core) (instruction : Instruction) (after : Core) :
    Prop where
  keypad : after.keypad = core.keypad
  control : after.control = core.control
  opcode : after.opcode = core.opcode
  memory : ∀ address (h : address < Memory.size), after.memory[address] ≠ core.memory[address] →
    instruction.Stores core.index address
  /-- Bytes are accessed upwards from the index and never beyond the end of memory. -/
  inside : ∀ length, instruction.reach? = some length →
    core.index.toNat + length ≤ Memory.size
  screen : instruction.draws = false → after.screen = core.screen
  redraw : after.redraw = (core.redraw || instruction.draws)
  delay : (∀ x, instruction ≠ .setDelay x) → after.delay = core.delay
  sound : (∀ x, instruction ≠ .setSound x) → after.sound = core.sound
  sp_call : ∀ target, instruction = .call target → after.sp.toNat = core.sp.toNat + 1
  sp_ret : instruction = .ret → after.sp.toNat + 1 = core.sp.toNat
  sp_other : (∀ target, instruction ≠ .call target) → instruction ≠ .ret → after.sp = core.sp
  stack : ∀ slot (h : slot < Core.stackSize), after.stack[slot] ≠ core.stack[slot] →
    (∃ target, instruction = .call target) ∧ slot = core.sp.toNat
  index : instruction.movesIndex dialect = false → after.index = core.index
  registers : ∀ r, instruction.writes dialect r = false → after.get r = core.get r

variable {dialect : Dialect} {byte : Byte} {core after : Core} {instruction : Instruction}

theorem Instruction.draws_of_isLocal (h : instruction.isLocal = true) :
    instruction.draws = false := by
  cases instruction with
  | clear => cases h
  | draw x y height => cases h
  | _ => rfl

theorem Instruction.reach?_of_isLocal (h : instruction.isLocal = true) :
    instruction.reach? = none := by
  cases instruction with
  | draw x y height => cases h
  | decimal x => cases h
  | store x => cases h
  | restore x => cases h
  | _ => rfl

namespace Effect

theorem redraw_eq (effect : Effect dialect core instruction after) :
    after.redraw = (core.redraw || instruction.draws) := by
  cases effect with
  | registers isLocal =>
    rw [Instruction.draws_of_isLocal isLocal, Bool.or_false]
  | clear => exact (Bool.or_true _).symm
  | draw => exact (Bool.or_true _).symm
  | _ => exact (Bool.or_false _).symm

theorem screen_eq (effect : Effect dialect core instruction after)
    (h : instruction.draws = false) : after.screen = core.screen := by
  cases effect with
  | clear => cases h
  | draw => cases h
  | _ => rfl

theorem delay_eq (effect : Effect dialect core instruction after)
    (h : ∀ x, instruction ≠ .setDelay x) : after.delay = core.delay := by
  cases effect with
  | setDelay x => exact absurd rfl (h x)
  | _ => rfl

theorem sound_eq (effect : Effect dialect core instruction after)
    (h : ∀ x, instruction ≠ .setSound x) : after.sound = core.sound := by
  cases effect with
  | setSound x => exact absurd rfl (h x)
  | _ => rfl

theorem index_eq (effect : Effect dialect core instruction after)
    (h : instruction.movesIndex dialect = false) : after.index = core.index := by
  cases effect with
  | setIndex => cases h
  | addIndex => cases h
  | pointGlyph => cases h
  | store x span located =>
    have stays : dialect.transfersMoveIndex = false := h
    simp [Core.indexAfter, stays]
  | restore x span located =>
    have stays : dialect.transfersMoveIndex = false := h
    simp [Core.indexAfter, stays]
  | _ => rfl

/-- The bytes that differ are written. A span keeps them below the end of memory, so the
sums are those of natural numbers. -/
theorem stores_of_memory_ne (effect : Effect dialect core instruction after) {address : Nat}
    (h : address < Memory.size) (changed : after.memory[address] ≠ core.memory[address]) :
    instruction.Stores core.index address := by
  cases effect with
  | decimal x span located =>
    have start := (Span.locate_eq_ok_iff.mp located).2
    rw [Memory.getElem_write] at changed
    split at changed
    · next within =>
      show core.index.toNat ≤ address ∧ address < core.index.toNat + 3
      omega
    · exact absurd rfl changed
  | store x span located =>
    have start := (Span.locate_eq_ok_iff.mp located).2
    rw [Memory.getElem_write] at changed
    split at changed
    · next within =>
      show core.index.toNat ≤ address ∧ address ≤ core.index.toNat + x.val
      omega
    · exact absurd rfl changed
  | _ => exact absurd rfl changed

theorem index_add_reach_le (effect : Effect dialect core instruction after) {length : Nat}
    (reaches : instruction.reach? = some length) :
    core.index.toNat + length ≤ Memory.size := by
  cases effect with
  | registers isLocal =>
    rw [Instruction.reach?_of_isLocal isLocal] at reaches
    cases reaches
  | draw x y height span located =>
    cases reaches
    exact (Span.locate_eq_ok_iff.mp located).1
  | decimal x span located =>
    cases reaches
    exact (Span.locate_eq_ok_iff.mp located).1
  | store x span located =>
    cases reaches
    exact (Span.locate_eq_ok_iff.mp located).1
  | restore x span located =>
    cases reaches
    exact (Span.locate_eq_ok_iff.mp located).1
  | _ => cases reaches

theorem toNat_sp_of_call {target : Address} (effect : Effect dialect core (.call target) after) :
    after.sp.toNat = core.sp.toNat + 1 := by
  cases effect with
  | registers isLocal => cases isLocal
  | call _ room => exact Core.toNat_sp_add_one room

theorem toNat_sp_of_ret (effect : Effect dialect core .ret after) :
    after.sp.toNat + 1 = core.sp.toNat := by
  cases effect with
  | registers isLocal => cases isLocal
  | ret nonempty bound =>
    have lower : (core.sp - 1).toNat = core.sp.toNat - 1 := Core.toNat_sp_sub_one nonempty
    have pos := Core.toNat_sp_pos nonempty
    show (core.sp - 1).toNat + 1 = core.sp.toNat
    omega

theorem sp_eq (effect : Effect dialect core instruction after)
    (no_call : ∀ target, instruction ≠ .call target) (no_ret : instruction ≠ .ret) :
    after.sp = core.sp := by
  cases effect with
  | call target room => exact absurd rfl (no_call target)
  | ret => exact absurd rfl no_ret
  | _ => rfl

theorem call_of_stack_ne (effect : Effect dialect core instruction after)
    {slot : Nat} (h : slot < Core.stackSize) (changed : after.stack[slot] ≠ core.stack[slot]) :
    (∃ target, instruction = .call target) ∧ slot = core.sp.toNat := by
  cases effect with
  | call target room =>
    refine ⟨⟨target, rfl⟩, ?_⟩
    simp only [Core.entered, Vector.getElem_set] at changed
    split at changed
    · next same => exact same.symm
    · exact absurd rfl changed
  | _ => exact absurd rfl changed

end Effect

namespace Core

theorem get_assign (x r : Register) (value : Byte) (core : Core) :
    (core.assign x value).get r = if x = r then value else core.get r :=
  get_set core x r value

theorem get_setFlag?_of_ne {r : Register} (h : r ≠ Register.flag) (core : Core)
    (flag : Option Byte) : (core.setFlag? flag).get r = core.get r := by
  cases flag with
  | none => rfl
  | some value =>
    rw [setFlag?, get_set, if_neg h.symm]

/-- The registers that an operation does not write. -/
theorem get_operate {op : Operation} {x r : Register} (hx : r ≠ x)
    (hflag : op.setsFlag dialect = false ∨ r ≠ Register.flag) (y : Register) (core : Core) :
    (core.operate dialect op x y).get r = core.get r := by
  have target (result : Byte) : (core.set x result).get r = core.get r := by
    rw [get_set, if_neg hx.symm]
  have same (flag : Option Byte) (h : flag = none ∨ r ≠ Register.flag) (result : Byte) :
      ((core.set x result).setFlag? flag).get r = core.get r := by
    rcases h with rfl | h
    · exact target result
    · rw [get_setFlag?_of_ne h, target]
  refine same _ ?_ _
  rcases hflag with quiet | h
  · left
    cases op with
    | copy => rfl
    | or | and | xor =>
      have stays : dialect.logicClearsFlag = false := quiet
      simp [Operation.logicFlag, stays]
    | _ => cases quiet
  · exact Or.inr h

end Core

/-- The registers that an instruction does not write keep their values. -/
theorem get_of_execute (ran : instruction.execute dialect byte core = .ok (.next after))
    {r : Register} (unwritten : instruction.writes dialect r = false) :
    after.get r = core.get r := by
  cases instruction with
  | loadByte x _ | addByte x _ | random x _ | getDelay x =>
    cases ran
    have other : r ≠ x := of_decide_eq_false unwritten
    rw [Core.get_assign, if_neg other.symm]
  | awaitKey x =>
    have other : r ≠ x := of_decide_eq_false unwritten
    simp only [Instruction.execute, Core.receiveKey?] at ran
    cases hkey : core.keypad.first? with
    | none => simp [hkey] at ran
    | some key =>
      simp only [hkey, Option.map_some] at ran
      cases ran
      rw [Core.get_assign, if_neg other.symm]
  | operate op x y =>
    cases ran
    rw [Instruction.writes, Bool.or_eq_false_iff, Bool.and_eq_false_iff] at unwritten
    obtain ⟨other, flag⟩ := unwritten
    exact Core.get_operate (of_decide_eq_false other) (flag.imp_right of_decide_eq_false) y core
  | draw x y height =>
    obtain ⟨_, hdraw, hnext⟩ := Except.map_eq_ok_iff.mp ran
    cases hnext
    obtain ⟨span, located, rfl⟩ := Except.map_eq_ok_iff.mp hdraw
    have other : r ≠ Register.flag := of_decide_eq_false unwritten
    exact (Core.get_set _ _ _ _).trans (if_neg other.symm)
  | restore x =>
    obtain ⟨_, hrestore, hnext⟩ := Except.map_eq_ok_iff.mp ran
    cases hnext
    obtain ⟨span, located, rfl⟩ := Except.map_eq_ok_iff.mp hrestore
    have above : x.val < r.val := Nat.lt_of_not_le (of_decide_eq_false unwritten)
    show (overwrite core.registers 0 (core.memory.read span).toList)[r.val] = core.registers[r.val]
    rw [getElem_overwrite, dif_neg]
    rw [Vector.length_toList]
    omega
  | ret | call | decimal | store =>
    have effect := effect_of_execute ran
    cases effect with
    | registers isLocal => cases isLocal
    | _ => rfl
  | _ =>
    cases ran
    rfl

/-- An instruction that ran has left alone all that is outside its write set. -/
theorem writeSet_of_execute (ran : instruction.execute dialect byte core = .ok (.next after)) :
    WriteSet dialect core instruction after := by
  have effect := effect_of_execute ran
  exact {
    keypad := effect.keypad_eq
    control := effect.control_eq
    opcode := effect.opcode_eq
    memory := fun _ h changed => effect.stores_of_memory_ne h changed
    inside := fun _ reaches => effect.index_add_reach_le reaches
    screen := effect.screen_eq
    redraw := effect.redraw_eq
    delay := effect.delay_eq
    sound := effect.sound_eq
    sp_call := by
      rintro target rfl
      exact effect.toNat_sp_of_call
    sp_ret := by
      rintro rfl
      exact effect.toNat_sp_of_ret
    sp_other := effect.sp_eq
    stack := fun _ h changed => effect.call_of_stack_ne h changed
    index := effect.index_eq
    registers := fun _ unwritten => get_of_execute ran unwritten }

end ChipEight
