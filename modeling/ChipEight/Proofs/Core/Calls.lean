import ChipEight.Proofs.Core.Range
/-!
# The call stack as a list

The slots below the stack pointer are the calls that have not returned. A call adds
its own address at the end of that list, a return takes the last address off it, and
what an earlier call left in the slots above is never seen again.

## Main statements

- `Core.length_calls` — the list is as long as the stack pointer says
- `Core.calls_entered`, `Core.calls_returned` — how a call and a return change the list
- `Effect.calls_eq` — no other instruction changes it
-/

namespace ChipEight

namespace Core

variable {core : Core}

theorem length_calls (h : core.InRange) : core.calls.length = core.depth := by
  have bound : core.depth ≤ 15 := h.sp_le
  have slots : core.stack.toList.length = 16 := Vector.length_toList
  rw [calls, List.length_take, slots]
  omega

theorem calls_eq_nil_iff (h : core.InRange) : core.calls = [] ↔ core.sp = 0 := by
  rw [← List.length_eq_zero_iff, length_calls h]
  show core.sp.toNat = (0 : UInt8).toNat ↔ core.sp = 0
  exact UInt8.toNat_inj

theorem calls_entered (target : Word) (room : core.sp.toNat + 1 < stackSize) :
    (core.entered target room).calls = core.calls ++ [core.pc] := by
  have free : core.sp.toNat + 1 < 16 := room
  have hlength : (core.stack.toList.set core.sp.toNat core.pc).length = 16 := by
    rw [List.length_set]
    exact Vector.length_toList
  simp only [calls, depth, entered, toNat_sp_add_one room, Vector.toList_set]
  rw [List.take_succ_eq_append_getElem (by omega), List.getElem_set_self,
    List.take_set_of_le (Nat.le_refl _)]

theorem calls_returned (nonempty : core.sp ≠ 0) (bound : core.sp.toNat - 1 < stackSize) :
    core.calls = (core.returned bound).calls ++ [core.stack[core.sp.toNat - 1]] := by
  have hsp : core.sp.toNat - 1 + 1 = core.sp.toNat := Nat.sub_add_cancel (toNat_sp_pos nonempty)
  have hlength : core.sp.toNat - 1 < core.stack.toList.length := by
    rw [Vector.length_toList]
    exact bound
  simp only [calls, depth, returned, toNat_sp_sub_one nonempty]
  calc core.stack.toList.take core.sp.toNat
      = core.stack.toList.take (core.sp.toNat - 1 + 1) := by rw [hsp]
    _ = core.stack.toList.take (core.sp.toNat - 1)
          ++ [core.stack.toList[core.sp.toNat - 1]] :=
        List.take_succ_eq_append_getElem hlength
    _ = core.stack.toList.take (core.sp.toNat - 1) ++ [core.stack[core.sp.toNat - 1]] := by
        rw [Vector.getElem_toList]

end Core

/-- Only calls and returns change the list of calls. -/
theorem Effect.calls_eq {dialect : Dialect} {core after : Core} {instruction : Instruction}
    (effect : Effect dialect core instruction after)
    (no_call : ∀ target, instruction ≠ .call target) (no_ret : instruction ≠ .ret) :
    after.calls = core.calls := by
  cases effect with
  | call target room => exact absurd rfl (no_call target)
  | ret nonempty bound => exact absurd rfl no_ret
  | _ => rfl

end ChipEight
