import ChipEight.Instruction.Execution
/-!
# Effects of instructions

Which parts of the core an instruction can have changed once it ran, and why it can
have failed, said once for all instructions. What a run of instructions keeps is
read off these relations and not off the instructions themselves.

## Main definitions

- `Core.entered`, `Core.returned` — the core behind a call and behind a return
- `Instruction.isLocal` — the instructions that change registers and the program
  counter alone
- `Effect` — the cores that an instruction can leave
- `Instruction.reach?` — how many bytes at the index an instruction accesses
- `Refusal` — the faults that an instruction can raise

## Main statements

- `effect_of_execute`, `refusal_of_execute` — what is known of an instruction that
  ran, and of one that failed
- `execute_of_refusal` — no fault that can be raised is left out
- `Effect.keypad_eq`, `Effect.control_eq`, `Effect.opcode_eq` — no instruction
  changes what belongs to the host
-/

namespace ChipEight

theorem Except.map_eq_ok_iff {ε α β : Type} {f : α → β} {x : Except ε α} {b : β} :
    x.map f = .ok b ↔ ∃ a, x = .ok a ∧ f a = b := by
  cases x <;> simp [Except.map]

theorem Except.map_eq_error_iff {ε α β : Type} {f : α → β} {x : Except ε α} {e : ε} :
    x.map f = .error e ↔ x = .error e := by
  cases x <;> simp [Except.map]

/-- A span is found exactly where the access ends inside memory. -/
theorem Span.locate_eq_ok_iff {address : Word} {length : Nat} {span : Span length} :
    Span.locate address length = .ok span ↔
      address.toNat + length ≤ Memory.size ∧ span.start = address.toNat := by
  obtain ⟨start, fits⟩ := span
  rw [Span.locate]
  split
  case isTrue h => simp [h, eq_comm]
  case isFalse h => simp [h]

theorem Span.locate_eq_error_iff {address : Word} {length : Nat} {fault : Fault} :
    Span.locate address length = .error fault ↔
      Memory.size < address.toNat + length
        ∧ fault = .addressOutOfRange (max (UInt16.ofNat Memory.size) address) := by
  rw [Span.locate]
  split
  case isTrue h => simp only [reduceCtorEq, false_iff]; omega
  case isFalse h =>
    have outside : Memory.size < address.toNat + length := by omega
    simp [outside, eq_comm]

namespace Core

theorem slot_lt {core : Core} (room : core.sp.toNat + 1 < stackSize) :
    core.sp.toNat < stackSize :=
  Nat.lt_of_succ_lt room

/-- The core behind a call that found room on the stack. -/
def entered (core : Core) (target : Word) (room : core.sp.toNat + 1 < stackSize) : Core :=
  { core with
    pc := target
    sp := core.sp + 1
    stack := core.stack.set core.sp.toNat core.pc (slot_lt room) }

/-- The core behind a return that found its call on the stack. -/
def returned (core : Core) (bound : core.sp.toNat - 1 < stackSize) : Core :=
  { core with
    pc := core.stack[core.sp.toNat - 1] + 2
    sp := core.sp - 1 }

theorem call_eq_ok_iff {target : Word} {core after : Core} :
    core.call target = .ok after ↔
      ∃ room : core.sp.toNat + 1 < stackSize, after = core.entered target room := by
  rw [call]
  split
  case isTrue h => simp [h, entered, eq_comm]
  case isFalse h => simp [h]

theorem call_eq_error_iff {target : Word} {core : Core} {fault : Fault} :
    core.call target = .error fault ↔
      stackSize ≤ core.sp.toNat + 1 ∧ fault = .stackOverflow core.pc := by
  rw [call]
  split
  case isTrue h => simp only [reduceCtorEq, false_iff]; omega
  case isFalse h =>
    have full : stackSize ≤ core.sp.toNat + 1 := by omega
    simp [full, eq_comm]

theorem ret_eq_ok_iff {core after : Core} :
    core.ret = .ok after ↔
      core.sp ≠ 0 ∧ ∃ bound : core.sp.toNat - 1 < stackSize, after = core.returned bound := by
  rw [ret]
  split
  case isTrue h => simp [h]
  case isFalse h =>
    split
    case isTrue bound => simp [h, bound, returned, eq_comm]
    case isFalse bound => simp [bound]

theorem operate_eq (dialect : Dialect) (op : Operation) (x y : Register) (core : Core) :
    ∃ registers, core.operate dialect op x y = { core with registers, pc := core.pc + 2 } := by
  cases hflag : (op.apply dialect (core.get x) (core.get y)).2 with
  | none => exact ⟨_, by simp only [operate, hflag]; rfl⟩
  | some flag => exact ⟨_, by simp only [operate, hflag]; rfl⟩

end Core

/-- The instructions that change nothing but registers and the program counter. -/
def Instruction.isLocal : Instruction → Bool
  | .clear | .ret | .call _ | .setIndex _ | .addIndex _ | .pointGlyph _ | .draw _ _ _
  | .setDelay _ | .setSound _ | .decimal _ | .store _ | .restore _ => false
  | _ => true

/-- The cores that an instruction can leave when it runs on `core`. -/
inductive Effect (dialect : Dialect) (core : Core) : Instruction → Core → Prop where
  | registers {instruction : Instruction} (isLocal : instruction.isLocal = true)
      (registers : Vector Byte 16) (pc : Word) :
      Effect dialect core instruction { core with registers, pc }
  | clear : Effect dialect core .clear core.clearScreen
  | ret (nonempty : core.sp ≠ 0) (bound : core.sp.toNat - 1 < Core.stackSize) :
      Effect dialect core .ret (core.returned bound)
  | call (target : Address) (room : core.sp.toNat + 1 < Core.stackSize) :
      Effect dialect core (.call target) (core.entered (.ofAddress target) room)
  | setIndex (target : Address) :
      Effect dialect core (.setIndex target) (core.assignIndex (.ofAddress target))
  | addIndex (x : Register) : Effect dialect core (.addIndex x) (core.addIndex x)
  | pointGlyph (x : Register) : Effect dialect core (.pointGlyph x) (core.pointGlyph x)
  | draw (x y : Register) (height : Nibble) (span : Span height.val)
      (located : Span.locate core.index height.val = .ok span) (registers : Vector Byte 16) :
      Effect dialect core (.draw x y height) { core with
        registers
        screen := core.screen.flipAll
          (Sprite.pixels (core.get x).toNat (core.get y).toNat (core.memory.read span).toList)
        redraw := true
        pc := core.pc + 2 }
  | setDelay (x : Register) : Effect dialect core (.setDelay x) (core.setDelay x)
  | setSound (x : Register) : Effect dialect core (.setSound x) (core.setSound x)
  | decimal (x : Register) (span : Span 3) (located : Span.locate core.index 3 = .ok span) :
      Effect dialect core (.decimal x) { core with
        memory := core.memory.write span (core.get x).digits
        pc := core.pc + 2 }
  | store (x : Register) (span : Span (x.val + 1))
      (located : Span.locate core.index (x.val + 1) = .ok span) :
      Effect dialect core (.store x) { core with
        memory := core.memory.write span (core.registersTo x)
        index := core.indexAfter dialect (x.val + 1)
        pc := core.pc + 2 }
  | restore (x : Register) (span : Span (x.val + 1))
      (located : Span.locate core.index (x.val + 1) = .ok span) :
      Effect dialect core (.restore x) { core with
        registers := overwrite core.registers 0 (core.memory.read span).toList
        index := core.indexAfter dialect (x.val + 1)
        pc := core.pc + 2 }

variable {dialect : Dialect} {byte : Byte} {core after : Core} {instruction : Instruction}

/-- An instruction that ran had an effect. -/
theorem effect_of_execute
    (h : instruction.execute dialect byte core = .ok (.next after)) :
    Effect dialect core instruction after := by
  cases instruction with
  | clear => cases h; exact .clear
  | ret =>
    obtain ⟨_, hret, hnext⟩ := Except.map_eq_ok_iff.mp h
    cases hnext
    obtain ⟨nonempty, bound, rfl⟩ := Core.ret_eq_ok_iff.mp hret
    exact .ret nonempty bound
  | call target =>
    obtain ⟨_, hcall, hnext⟩ := Except.map_eq_ok_iff.mp h
    cases hnext
    obtain ⟨room, rfl⟩ := Core.call_eq_ok_iff.mp hcall
    exact .call target room
  | operate op x y =>
    cases h
    obtain ⟨registers, hregisters⟩ := Core.operate_eq dialect op x y core
    rw [hregisters]
    exact .registers rfl registers _
  | draw x y height =>
    obtain ⟨_, hdraw, hnext⟩ := Except.map_eq_ok_iff.mp h
    cases hnext
    obtain ⟨span, located, rfl⟩ := Except.map_eq_ok_iff.mp hdraw
    exact .draw x y height span located _
  | awaitKey x =>
    simp only [Instruction.execute, Core.receiveKey?] at h
    cases hkey : core.keypad.first? with
    | none => simp [hkey] at h
    | some key =>
      simp only [hkey, Option.map_some] at h
      cases h
      exact .registers rfl _ _
  | setIndex target => cases h; exact .setIndex target
  | addIndex x => cases h; exact .addIndex x
  | pointGlyph x => cases h; exact .pointGlyph x
  | setDelay x => cases h; exact .setDelay x
  | setSound x => cases h; exact .setSound x
  | decimal x =>
    obtain ⟨_, hdecimal, hnext⟩ := Except.map_eq_ok_iff.mp h
    cases hnext
    obtain ⟨span, located, rfl⟩ := Except.map_eq_ok_iff.mp hdecimal
    exact .decimal x span located
  | store x =>
    obtain ⟨_, hstore, hnext⟩ := Except.map_eq_ok_iff.mp h
    cases hnext
    obtain ⟨span, located, rfl⟩ := Except.map_eq_ok_iff.mp hstore
    exact .store x span located
  | restore x =>
    obtain ⟨_, hrestore, hnext⟩ := Except.map_eq_ok_iff.mp h
    cases hnext
    obtain ⟨span, located, rfl⟩ := Except.map_eq_ok_iff.mp hrestore
    exact .restore x span located
  | _ => cases h; exact .registers rfl _ _

namespace Effect

theorem keypad_eq (h : Effect dialect core instruction after) : after.keypad = core.keypad := by
  cases h <;> rfl

theorem control_eq (h : Effect dialect core instruction after) : after.control = core.control := by
  cases h <;> rfl

theorem opcode_eq (h : Effect dialect core instruction after) : after.opcode = core.opcode := by
  cases h <;> rfl

end Effect

/-- The number of bytes at the index that an instruction accesses, if it accesses
memory at all. -/
def Instruction.reach? : Instruction → Option Nat
  | .draw _ _ height => some height.val
  | .decimal _ => some 3
  | .store x | .restore x => some (x.val + 1)
  | _ => none

/-- The faults that an instruction can raise when it fails on `core`. -/
inductive Refusal (core : Core) : Instruction → Fault → Prop where
  | overflow (target : Address) (full : Core.stackSize ≤ core.sp.toNat + 1) :
      Refusal core (.call target) (.stackOverflow core.pc)
  | underflow (empty : core.sp = 0) : Refusal core .ret (.stackUnderflow core.pc)
  | stray (outside : Core.stackSize ≤ core.sp.toNat - 1) :
      Refusal core .ret (.strayStackPointer core.pc core.sp)
  | outside {instruction : Instruction} {length : Nat}
      (reaches : instruction.reach? = some length)
      (outside : Memory.size < core.index.toNat + length) :
      Refusal core instruction
        (.addressOutOfRange (max (UInt16.ofNat Memory.size) core.index))

theorem Refusal.of_locate {length : Nat} {fault : Fault}
    (reaches : instruction.reach? = some length)
    (refused : Span.locate core.index length = .error fault) :
    Refusal core instruction fault := by
  obtain ⟨outside, rfl⟩ := Span.locate_eq_error_iff.mp refused
  exact .outside reaches outside

/-- An instruction that failed raised one of these faults. -/
theorem refusal_of_execute {fault : Fault}
    (h : instruction.execute dialect byte core = .error fault) :
    Refusal core instruction fault := by
  cases instruction with
  | ret =>
    have refused := Except.map_eq_error_iff.mp h
    rw [Core.ret] at refused
    split at refused
    case isTrue empty => cases refused; exact .underflow empty
    case isFalse nonempty =>
      split at refused
      case isTrue bound => cases refused
      case isFalse outside => cases refused; exact .stray (Nat.le_of_not_lt outside)
  | call target =>
    obtain ⟨full, rfl⟩ := Core.call_eq_error_iff.mp (Except.map_eq_error_iff.mp h)
    exact .overflow target full
  | draw x y height =>
    exact .of_locate rfl (Except.map_eq_error_iff.mp (Except.map_eq_error_iff.mp h))
  | decimal x =>
    exact .of_locate rfl (Except.map_eq_error_iff.mp (Except.map_eq_error_iff.mp h))
  | store x =>
    exact .of_locate rfl (Except.map_eq_error_iff.mp (Except.map_eq_error_iff.mp h))
  | restore x =>
    exact .of_locate rfl (Except.map_eq_error_iff.mp (Except.map_eq_error_iff.mp h))
  | awaitKey x =>
    simp only [Instruction.execute] at h
    split at h <;> cases h
  | _ => cases h

/-- An instruction for which a fault can be raised raises it. -/
theorem execute_of_refusal {fault : Fault} (h : Refusal core instruction fault) :
    instruction.execute dialect byte core = .error fault := by
  cases h with
  | overflow target full =>
    exact Except.map_eq_error_iff.mpr (Core.call_eq_error_iff.mpr ⟨full, rfl⟩)
  | underflow empty =>
    have refused : core.ret = .error (.stackUnderflow core.pc) := if_pos empty
    exact Except.map_eq_error_iff.mpr refused
  | stray outside =>
    have nonempty : core.sp ≠ 0 := by
      intro empty
      rw [empty] at outside
      exact absurd outside (by decide)
    have refused : core.ret = .error (.strayStackPointer core.pc core.sp) := by
      rw [Core.ret, if_neg nonempty, dif_neg (Nat.not_lt.mpr outside)]
    exact Except.map_eq_error_iff.mpr refused
  | @outside _ length reaches outside =>
    have refused := Span.locate_eq_error_iff.mpr ⟨outside, rfl⟩
    cases instruction with
    | draw x y height | decimal x | store x | restore x =>
      cases reaches
      exact Except.map_eq_error_iff.mpr (Except.map_eq_error_iff.mpr refused)
    | _ => cases reaches

end ChipEight
