import ChipEight.Proofs.Instruction.Effect
/-!
# Read sets

What an instruction does not look at. A few parts of the core are read by some
instructions or by none: with such a part forgotten, an instruction that does not read it
comes to the same, up to that part. What makes an instruction fail is fewer parts still.

## Main definitions

- `Core.Part`, `Core.forget` — these parts, and a core with one of them blanked out
- `Core.SameBut` — cores that one part alone tells apart
- `Instruction.reads`, `Core.Part.isRead` — the parts that an instruction reads, and those
  that some instruction reads

## Main statements

- `Instruction.execute_forget` — an instruction that does not read a part
- `Instruction.execute_error_congr` — a failure, from any core that agrees in index, stack
  pointer and program counter
- `Instruction.execute_eq_awaitingKey_iff` — which instruction waits, and when
-/

namespace ChipEight

/-- The parts of the core that few instructions read or none does. -/
inductive Core.Part where
  | opcode
  | sound
  | redraw
  | delay
  | keypad
  | screen
  deriving DecidableEq, Repr

namespace Core

/-- The core with a part as it is when the machine is switched on. -/
def forget : Part → Core → Core
  | .opcode, core => { core with opcode := 0 }
  | .sound, core => { core with sound := 0 }
  | .redraw, core => { core with redraw := false }
  | .delay, core => { core with delay := 0 }
  | .keypad, core => { core with keypad := Keypad.released }
  | .screen, core => { core with screen := Screen.blank }

/-- The part alone tells the cores apart. -/
def SameBut (part : Part) (first second : Core) : Prop :=
  second.forget part = first.forget part

end Core

open ChipEight.Core (Part)

def Outcome.forget (part : Part) : Outcome → Outcome
  | .next core => .next (core.forget part)
  | .awaitingKey => .awaitingKey

/-- Whether an instruction that runs, or waits for a key, reads a part. -/
def Instruction.reads : Instruction → Part → Bool
  | .getDelay _, .delay => true
  | .skipKey _, .keypad | .skipNoKey _, .keypad | .awaitKey _, .keypad => true
  | .draw _ _ _, .screen => true
  | _, _ => false

/-- Whether some instruction reads a part. -/
def Core.Part.isRead : Part → Bool
  | .delay | .keypad | .screen => true
  | .opcode | .sound | .redraw => false

variable {part : Part} {dialect other : Dialect} {byte otherByte : Byte} {core : Core}
  {instruction : Instruction}

namespace Core

@[simp] theorem forget_forget (core : Core) :
    (core.forget part).forget part = core.forget part := by
  cases part <;> rfl

@[simp] theorem index_forget (core : Core) : (core.forget part).index = core.index := by
  cases part <;> rfl

@[simp] theorem pc_forget (core : Core) : (core.forget part).pc = core.pc := by
  cases part <;> rfl

@[simp] theorem sp_forget (core : Core) : (core.forget part).sp = core.sp := by
  cases part <;> rfl

@[simp] theorem stack_forget (core : Core) : (core.forget part).stack = core.stack := by
  cases part <;> rfl

@[simp] theorem memory_forget (core : Core) : (core.forget part).memory = core.memory := by
  cases part <;> rfl

@[simp] theorem control_forget (core : Core) : (core.forget part).control = core.control := by
  cases part <;> rfl

@[simp] theorem get_forget (core : Core) (r : Register) : (core.forget part).get r = core.get r := by
  cases part <;> rfl

theorem set_forget (core : Core) (r : Register) (value : Byte) :
    (core.forget part).set r value = (core.set r value).forget part := by
  cases part <;> rfl

theorem next_forget (core : Core) : (core.forget part).next = core.next.forget part := by
  cases part <;> rfl

theorem setFlag?_forget (core : Core) (flag : Option Byte) :
    (core.forget part).setFlag? flag = (core.setFlag? flag).forget part := by
  cases flag with
  | none => rfl
  | some value => exact set_forget core Register.flag value

theorem operate_forget (op : Operation) (x y : Register) (core : Core) :
    (core.forget part).operate dialect op x y = (core.operate dialect op x y).forget part := by
  simp only [operate, get_forget, set_forget, setFlag?_forget, next_forget]

theorem ret_forget (core : Core) : (core.forget part).ret = core.ret.map (forget part) := by
  by_cases empty : core.sp = 0
  · simp [ret, empty, Except.map]
  · by_cases bound : core.sp.toNat - 1 < stackSize
    · simp only [ret, sp_forget, stack_forget, if_neg empty, dif_pos bound, Except.map]
      cases part <;> rfl
    · simp [ret, empty, bound, Except.map]

theorem call_forget (target : Word) (core : Core) :
    (core.forget part).call target = (core.call target).map (forget part) := by
  by_cases room : core.sp.toNat + 1 < stackSize
  · simp only [call, sp_forget, stack_forget, pc_forget, dif_pos room, Except.map]
    cases part <;> rfl
  · simp [call, room, Except.map]

namespace SameBut

variable {first second third : Core}

theorem refl (core : Core) : SameBut part core core :=
  rfl

theorem symm (same : SameBut part first second) : SameBut part second first :=
  Eq.symm same

/-- Cores stay the same but for a part under a change to which the part does not matter. -/
theorem map (same : SameBut part first second) (change : Core → Core)
    (blind : ∀ core, (change core).forget part = (change (core.forget part)).forget part) :
    SameBut part (change first) (change second) := by
  rw [SameBut, blind second, blind first, show second.forget part = first.forget part from same]

/-- What can be seen of the cores with the part forgotten. -/
theorem congr {α : Type} (same : SameBut part first second) (view : Core → α) :
    view (second.forget part) = view (first.forget part) :=
  congrArg view same

theorem index_eq (same : SameBut part first second) : second.index = first.index := by
  simpa using same.congr Core.index

theorem pc_eq (same : SameBut part first second) : second.pc = first.pc := by
  simpa using same.congr Core.pc

theorem sp_eq (same : SameBut part first second) : second.sp = first.sp := by
  simpa using same.congr Core.sp

theorem memory_eq (same : SameBut part first second) : second.memory = first.memory := by
  simpa using same.congr Core.memory

theorem control_eq (same : SameBut part first second) : second.control = first.control := by
  simpa using same.congr Core.control

theorem fetch_eq (same : SameBut part first second) : second.fetch = first.fetch := by
  simp only [fetch, same.pc_eq, same.memory_eq]

end SameBut

end Core

/-- Where a transfer finds its span does not depend on the part, so the outcome does not if
the core behind the transfer does not. -/
theorem Outcome.map_forget_congr {α : Type} {found : Except Fault α} {f g : α → Core}
    (same : ∀ a, (f a).forget part = (g a).forget part) :
    ((found.map f).map Outcome.next).map (Outcome.forget part)
      = ((found.map g).map Outcome.next).map (Outcome.forget part) := by
  cases found with
  | error fault => rfl
  | ok a => exact congrArg (fun core => Except.ok (Outcome.next core)) (same a)

namespace Instruction

theorem reads_eq_false (unread : part.isRead = false) (instruction : Instruction) :
    instruction.reads part = false := by
  cases part with
  | delay | keypad | screen => cases unread
  | opcode | sound | redraw => cases instruction <;> rfl

/-- An instruction that does not read a part comes to the same with the part forgotten. -/
theorem execute_forget (unread : instruction.reads part = false) :
    (instruction.execute dialect byte (core.forget part)).map (Outcome.forget part)
      = (instruction.execute dialect byte core).map (Outcome.forget part) := by
  cases instruction with
  | ret =>
    simp only [execute, Core.ret_forget]
    cases core.ret with
    | error fault => rfl
    | ok after => exact congrArg (fun core => Except.ok (Outcome.next core)) after.forget_forget
  | call target =>
    simp only [execute, Core.call_forget]
    cases core.call (.ofAddress target) with
    | error fault => rfl
    | ok after => exact congrArg (fun core => Except.ok (Outcome.next core)) after.forget_forget
  | operate op x y =>
    rw [execute, Core.operate_forget]
    exact congrArg (fun core => Except.ok (Outcome.next core)) (Core.forget_forget _)
  | draw x y height =>
    cases part with
    | screen => cases unread
    | _ => exact Outcome.map_forget_congr fun span => rfl
  | getDelay x =>
    cases part with
    | delay => cases unread
    | _ => rfl
  | skipKey x | skipNoKey x =>
    cases part with
    | keypad => cases unread
    | _ => rfl
  | awaitKey x =>
    cases part with
    | keypad => cases unread
    | _ =>
      simp only [execute, Core.receiveKey?, Core.forget]
      cases core.keypad.first? with
      | none => rfl
      | some key => rfl
  | decimal x | store x | restore x =>
    cases part <;> exact Outcome.map_forget_congr fun span => rfl
  | _ => cases part <;> rfl

/-- Whether an instruction fails, and how, is decided by the index, the stack pointer and
the program counter. -/
theorem execute_error_congr {first second : Core} {fault : Fault}
    (index : second.index = first.index) (sp : second.sp = first.sp) (pc : second.pc = first.pc)
    (refused : instruction.execute dialect byte first = .error fault) :
    instruction.execute other otherByte second = .error fault := by
  apply execute_of_refusal
  cases refusal_of_execute refused with
  | overflow target full =>
    rw [← pc]
    exact .overflow target (by rwa [sp])
  | underflow empty =>
    rw [← pc]
    exact .underflow (sp.trans empty)
  | stray outside =>
    rw [← pc, ← sp]
    exact .stray (by rwa [sp])
  | outside reaches outside =>
    rw [← index]
    exact .outside reaches (by rwa [index])

/-- One instruction alone waits. -/
theorem eq_awaitKey_of_execute (waits : instruction.execute dialect byte core = .ok .awaitingKey) :
    ∃ x, instruction = .awaitKey x := by
  cases instruction with
  | awaitKey x => exact ⟨x, rfl⟩
  | ret | call | draw | decimal | store | restore =>
    obtain ⟨_, _, hnext⟩ := Except.map_eq_ok_iff.mp waits
    cases hnext
  | _ => cases waits

theorem execute_eq_awaitingKey_iff :
    instruction.execute dialect byte core = .ok .awaitingKey ↔
      (∃ x, instruction = .awaitKey x) ∧ core.keypad.first? = none := by
  constructor
  · intro waits
    obtain ⟨x, rfl⟩ := eq_awaitKey_of_execute waits
    refine ⟨⟨x, rfl⟩, ?_⟩
    cases held : core.keypad.first? with
    | none => rfl
    | some key => simp [execute, Core.receiveKey?, held] at waits
  · rintro ⟨⟨x, rfl⟩, released⟩
    simp only [execute, Core.receiveKey?, released, Option.map_none]

end Instruction

end ChipEight
