import ChipEight.Proofs.Core.Access
import ChipEight.Proofs.Machine.Run
/-!
# Safety

Whatever is done to a machine, it stays in range, and so no instruction that could
come up next makes an access outside of what it accesses.

## Main statements

- `Machine.inRange_step` — a step keeps the bounds
- `Machine.performAll_safe` — every run keeps them, and what follows for accesses
-/

namespace ChipEight.Machine

theorem inRange_step {machine : Machine} (h : machine.core.InRange) :
    machine.step.after.core.InRange := by
  have turn := machine.turn_step
  generalize machine.step = report at turn ⊢
  cases turn with
  | executed running word instruction core fetched decoded ran =>
    -- a word was fetched, so a call would store an address inside memory
    have inside : machine.core.pc.toNat + 2 ≤ 4096 := (Core.fetch_eq_ok_iff_holdsWord.mp fetched).1
    have latched : (machine.latch word).core.InRange := h.of_eq rfl rfl rfl rfl
    exact latched.effect (Nat.le_of_add_le_add_right inside) (effect_of_execute ran)
  | _ => exact h.of_eq rfl rfl rfl rfl

theorem invariant_inRange : Invariant fun machine => machine.core.InRange where
  step _ h := inRange_step h
  tick _ h := h.of_eq rfl rfl rfl rfl
  load _ _ _ _ h := h.of_eq rfl rfl rfl rfl
  setKeys _ _ h := h.of_eq rfl rfl rfl rfl
  setControl _ _ h := h.of_eq rfl rfl rfl rfl
  reset machine _ := Core.InRange.reset machine.core
  lowerRedraw _ h := h.of_eq rfl rfl rfl rfl

theorem inRange_performAll (settings : Settings) (random : WordStream) (commands : List Command) :
    ((switchedOn settings random).performAll commands).after.core.InRange :=
  invariant_inRange.performAll commands Core.inRange_fresh

/-- Every run of commands leaves the machine in range: at most fifteen entries on the
stack, all of them addresses that can be fetched from, a twelve-bit index and cells
that are off or on. Hence no access of any instruction, in any dialect and with any
random byte, can leave its range there. -/
theorem performAll_safe (settings : Settings) (random : WordStream) (commands : List Command) :
    let core := ((switchedOn settings random).performAll commands).after.core
    core.InRange ∧
      ∀ (instruction : Instruction) (dialect : Dialect) (byte : Byte),
        instruction.execute? dialect byte core = some (instruction.execute dialect byte core) := by
  intro core
  have inRange : core.InRange := inRange_performAll settings random commands
  exact ⟨inRange, fun instruction dialect byte =>
    instruction.execute?_of_inRange inRange dialect byte⟩

end ChipEight.Machine
