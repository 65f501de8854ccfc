import ChipEight.Proofs.Core.Calls
import ChipEight.Proofs.Machine.Host
import ChipEight.Proofs.Machine.Safety
/-!
# Calls and returns

The stack seen from outside is the list of calls that have not returned. A step adds
to that list, takes from it or leaves it alone, and over a run the calls nest like
brackets: whatever happens in between, the first step that brings the list back to
the length it had before a call is the return of that call.

## Main definitions

- `Machine.pending?` — the instruction that comes up next
- `Machine.StepOnCalls` — what a step does to the list of calls
- `Command.isStepwise` — the commands that make at most one step and do not reset

## Main statements

- `Machine.value_step_of_call`, `Machine.value_step_of_ret` — when the two fail
- `Machine.step_of_open`, `Machine.performAll_of_open` — an open call stays open
  until it returns
- `Machine.calls_nest` — steps and runs of every machine that can be reached
-/

namespace ChipEight

/-- Whether a command makes at most one step and does not reset the machine. -/
def Command.isStepwise : Command → Bool
  | .runFrame | .reset | .apply .reset => false
  | _ => true

namespace Machine

/-- The instruction that comes up in the next step, if the machine runs and there is
an instruction at the program counter. -/
def pending? (machine : Machine) : Option Instruction :=
  if machine.core.control = .running then
    machine.core.fetch.toOption.bind Instruction.decode?
  else
    none

variable {machine : Machine} {instruction : Instruction} {target : Address}

theorem pending?_of_fetched {word : Word} (running : machine.core.control = .running)
    (fetched : machine.core.fetch = .ok word) :
    machine.pending? = Instruction.decode? word := by
  rw [pending?, if_pos running, fetched]
  rfl

theorem pending?_of_executed (executed : machine.step.value = .executed instruction) :
    machine.pending? = some instruction := by
  have turn := machine.turn_step
  generalize machine.step = report at turn executed
  cases turn with
  | executed running word instruction core fetched decoded ran =>
    cases executed
    rw [pending?_of_fetched running fetched, decoded]
  | _ => cases executed

theorem fetched_of_pending (pending : machine.pending? = some instruction) :
    machine.core.control = .running ∧
      ∃ word, machine.core.fetch = .ok word ∧ Instruction.decode? word = some instruction := by
  unfold pending? at pending
  split at pending
  case isTrue running =>
    cases fetched : machine.core.fetch with
    | error fault => simp [fetched, Except.toOption] at pending
    | ok word =>
      rw [fetched] at pending
      exact ⟨running, word, rfl, pending⟩
  case isFalse idle => cases pending

/-- A call that comes up runs, unless fifteen calls are open. -/
theorem value_step_of_call (inRange : machine.core.InRange)
    (pending : machine.pending? = some (.call target)) :
    machine.step.value =
      if machine.core.calls.length = 15 then .failed (.stackOverflow machine.core.pc)
      else .executed (.call target) := by
  obtain ⟨running, word, fetched, decoded⟩ := fetched_of_pending pending
  have bound : machine.core.sp.toNat ≤ 15 := inRange.sp_le
  rw [Core.length_calls inRange, Core.depth, step_of_fetched running fetched,
    executeFetched_of_decoded decoded]
  by_cases full : machine.core.sp.toNat = 15
  · have refused : (machine.latch word).core.call (.ofAddress target)
        = .error (.stackOverflow machine.core.pc) :=
      Core.call_eq_error_iff.mpr ⟨show 16 ≤ machine.core.sp.toNat + 1 by omega, rfl⟩
    rw [if_pos full, Instruction.execute, refused]
    rfl
  · have room : (machine.latch word).core.sp.toNat + 1 < 16 := by
      show machine.core.sp.toNat + 1 < 16
      omega
    obtain ⟨core, ran⟩ : ∃ core, (machine.latch word).core.call (.ofAddress target) = .ok core :=
      ⟨_, Core.call_eq_ok_iff.mpr ⟨room, rfl⟩⟩
    rw [if_neg full, Instruction.execute, ran]
    rfl

/-- A return that comes up runs, unless no call is open. -/
theorem value_step_of_ret (inRange : machine.core.InRange)
    (pending : machine.pending? = some .ret) :
    machine.step.value =
      if machine.core.calls = [] then .failed (.stackUnderflow machine.core.pc)
      else .executed .ret := by
  obtain ⟨running, word, fetched, decoded⟩ := fetched_of_pending pending
  rw [step_of_fetched running fetched, executeFetched_of_decoded decoded]
  by_cases empty : machine.core.sp = 0
  · have refused : (machine.latch word).core.ret = .error (.stackUnderflow machine.core.pc) :=
      if_pos empty
    rw [if_pos ((Core.calls_eq_nil_iff inRange).mpr empty), Instruction.execute, refused]
    rfl
  · have bound : (machine.latch word).core.sp.toNat - 1 < 16 := by
      have := inRange.sp_le
      show machine.core.sp.toNat - 1 < 16
      omega
    obtain ⟨core, ran⟩ : ∃ core, (machine.latch word).core.ret = .ok core :=
      ⟨_, Core.ret_eq_ok_iff.mpr ⟨empty, bound, rfl⟩⟩
    rw [if_neg (mt (Core.calls_eq_nil_iff inRange).mp empty), Instruction.execute, ran]
    rfl

theorem calls_step_of_call (executed : machine.step.value = .executed (.call target)) :
    machine.step.after.core.calls = machine.core.calls ++ [machine.core.pc] ∧
      machine.step.after.core.pc = .ofAddress target := by
  obtain ⟨word, _, _, effect⟩ := effect_of_executed executed
  generalize machine.step.after.core = after at effect ⊢
  cases effect with
  | registers isLocal => cases isLocal
  | call target room => exact ⟨Core.calls_entered _ room, rfl⟩

theorem calls_step_of_ret (executed : machine.step.value = .executed .ret) :
    ∃ site, machine.core.calls = machine.step.after.core.calls ++ [site] ∧
      machine.step.after.core.pc = site + 2 := by
  obtain ⟨word, _, _, effect⟩ := effect_of_executed executed
  generalize machine.step.after.core = after at effect ⊢
  cases effect with
  | registers isLocal => cases isLocal
  | ret nonempty bound => exact ⟨_, Core.calls_returned nonempty bound, rfl⟩

theorem calls_step_of_other (no_call : ∀ target, machine.step.value ≠ .executed (.call target))
    (no_ret : machine.step.value ≠ .executed .ret) :
    machine.step.after.core.calls = machine.core.calls := by
  have turn := machine.turn_step
  generalize machine.step = report at turn no_call no_ret ⊢
  cases turn with
  | executed running word instruction core fetched decoded ran =>
    refine (effect_of_execute ran).calls_eq ?_ ?_
    · rintro target rfl
      exact no_call target rfl
    · rintro rfl
      exact no_ret rfl
  | _ => rfl

/-- A fault of the call stack is raised by the instruction that came up. -/
theorem refusal_of_failed {fault : Fault} (failed : machine.step.value = .failed fault) :
    (∃ instruction word, machine.pending? = some instruction ∧
      Refusal (machine.latch word).core instruction fault) ∨
    (∃ opcode, fault = .unknownInstruction opcode) ∨
    ∃ address, fault = .addressOutOfRange address := by
  have turn := machine.turn_step
  generalize machine.step = report at turn failed
  cases turn with
  | unfetched running fault refused =>
    cases failed
    exact Or.inr (Or.inr ⟨_, (Core.fetch_eq_error_iff.mp refused).2⟩)
  | undecoded running word fetched unknown =>
    cases failed
    exact Or.inr (Or.inl ⟨word, rfl⟩)
  | unexecuted running word instruction fault fetched decoded refused =>
    cases failed
    refine Or.inl ⟨instruction, word, ?_, refusal_of_execute refused⟩
    rw [pending?_of_fetched running fetched, decoded]
  | _ => cases failed

/-- What a step does to the list of calls that have not returned. -/
structure StepOnCalls (machine : Machine) : Prop where
  came_up : ∀ instruction, machine.step.value = .executed instruction →
    machine.pending? = some instruction
  call : ∀ target, machine.step.value = .executed (.call target) →
    machine.step.after.core.calls = machine.core.calls ++ [machine.core.pc] ∧
      machine.step.after.core.pc = .ofAddress target
  ret : machine.step.value = .executed .ret →
    ∃ site, machine.core.calls = machine.step.after.core.calls ++ [site] ∧
      machine.step.after.core.pc = site + 2
  other : (∀ target, machine.step.value ≠ .executed (.call target)) →
    machine.step.value ≠ .executed .ret → machine.step.after.core.calls = machine.core.calls
  full : ∀ target, machine.pending? = some (.call target) →
    machine.step.value =
      if machine.core.calls.length = 15 then .failed (.stackOverflow machine.core.pc)
      else .executed (.call target)
  empty : machine.pending? = some .ret →
    machine.step.value =
      if machine.core.calls = [] then .failed (.stackUnderflow machine.core.pc)
      else .executed .ret
  overflow : ∀ site, machine.step.value = .failed (.stackOverflow site) →
    ∃ target, machine.pending? = some (.call target)
  underflow : ∀ site, machine.step.value = .failed (.stackUnderflow site) →
    machine.pending? = some .ret

theorem stepOnCalls (inRange : machine.core.InRange) : machine.StepOnCalls where
  came_up _ := pending?_of_executed
  call _ := calls_step_of_call
  ret := calls_step_of_ret
  other := calls_step_of_other
  full _ := value_step_of_call inRange
  empty := value_step_of_ret inRange
  overflow := by
    intro site failed
    rcases refusal_of_failed failed with ⟨_, _, pending, refusal⟩ | ⟨_, h⟩ | ⟨_, h⟩
    · cases refusal with
      | overflow target full => exact ⟨target, pending⟩
    · cases h
    · cases h
  underflow := by
    intro site failed
    rcases refusal_of_failed failed with ⟨_, _, pending, refusal⟩ | ⟨_, h⟩ | ⟨_, h⟩
    · cases refusal with
      | underflow empty => exact pending
    · cases h
    · cases h

/-- Of the commands that make at most one step, only a step changes the list of calls. -/
theorem calls_perform {command : Command} (stepwise : command.isStepwise = true)
    (no_step : command ≠ .step) :
    (machine.perform command).after.core.calls = machine.core.calls := by
  have quiet : command.takesSteps = false := by
    cases command with
    | step => exact absurd rfl no_step
    | runFrame => cases stepwise
    | _ => rfl
  have act := machine.hostAct_perform quiet
  generalize (machine.perform command).after = after at act ⊢
  cases act with
  | applyReset => cases stepwise
  | reset => cases stepwise
  | _ => rfl

variable {outer : List Word} {site : Word}

/-- A step leaves an open call open, with the calls around it, or returns from it. -/
theorem step_of_open (nested : outer ++ [site] <+: machine.core.calls) :
    outer ++ [site] <+: machine.step.after.core.calls ∨
      machine.step.value = .executed .ret ∧
        machine.step.after.core.calls = outer ∧ machine.step.after.core.pc = site + 2 := by
  by_cases hret : machine.step.value = .executed .ret
  · obtain ⟨top, hcalls, hpc⟩ := calls_step_of_ret hret
    rw [hcalls] at nested
    rcases List.prefix_concat_iff.mp nested with hall | hbelow
    · -- the call on top is the one at `site`
      obtain ⟨rfl, htop⟩ := List.append_inj' hall rfl
      cases htop
      exact Or.inr ⟨hret, rfl, hpc⟩
    · exact Or.inl hbelow
  · left
    by_cases hcall : ∃ target, machine.step.value = .executed (.call target)
    · obtain ⟨target, hcall⟩ := hcall
      rw [(calls_step_of_call hcall).1]
      exact nested.trans (List.prefix_append _ _)
    · rw [calls_step_of_other (fun target h => hcall ⟨target, h⟩) hret]
      exact nested

theorem perform_of_open {command : Command} (stepwise : command.isStepwise = true)
    (nested : outer ++ [site] <+: machine.core.calls) :
    outer ++ [site] <+: (machine.perform command).after.core.calls ∨
      command = .step ∧ machine.step.value = .executed .ret ∧
        machine.step.after.core.calls = outer ∧ machine.step.after.core.pc = site + 2 := by
  by_cases hstep : command = .step
  · subst hstep
    rcases step_of_open nested with still | returned
    · exact Or.inl still
    · exact Or.inr ⟨rfl, returned⟩
  · left
    rw [calls_perform stepwise hstep]
    exact nested

/-- A call stays open, with the calls around it, as long as the list of calls does not
come back to the length it had before. -/
theorem performAll_of_open (commands : List Command)
    (stepwise : ∀ command ∈ commands, command.isStepwise = true)
    (nested : outer ++ [site] <+: machine.core.calls)
    (deeper : ∀ early, early <+: commands →
      (machine.performAll early).after.core.calls.length ≠ outer.length) :
    outer ++ [site] <+: (machine.performAll commands).after.core.calls := by
  induction commands generalizing machine with
  | nil => exact nested
  | cons command rest ih =>
    have still : outer ++ [site] <+: (machine.perform command).after.core.calls := by
      rcases perform_of_open (stepwise command List.mem_cons_self) nested with
        still | ⟨rfl, _, hcalls, _⟩
      · exact still
      · have back : (machine.performAll [.step]).after.core.calls.length = outer.length :=
          congrArg List.length hcalls
        exact absurd back (deeper [.step] (List.prefix_append _ _))
    refine ih (fun other member => stepwise other (List.mem_cons_of_mem _ member)) still ?_
    intro early within
    exact deeper (command :: early) (List.cons_prefix_cons.mpr ⟨rfl, within⟩)

/-- The first command after which the list of calls is as long as before an open call
is the step that returns from it. -/
theorem return_of_open (between : List Command) (last : Command)
    (stepwise : ∀ command ∈ between ++ [last], command.isStepwise = true)
    (nested : outer ++ [site] <+: machine.core.calls)
    (deeper : ∀ early, early <+: between →
      (machine.performAll early).after.core.calls.length ≠ outer.length)
    (back : (machine.performAll (between ++ [last])).after.core.calls.length = outer.length) :
    last = .step ∧ (machine.performAll between).after.step.value = .executed .ret ∧
      (machine.performAll (between ++ [last])).after.core.calls = outer ∧
      (machine.performAll (between ++ [last])).after.core.pc = site + 2 := by
  have still : outer ++ [site] <+: (machine.performAll between).after.core.calls :=
    performAll_of_open between
      (fun command member => stepwise command (List.mem_append_left _ member)) nested deeper
  rw [after_performAll_append] at back ⊢
  have final : last.isStepwise = true := stepwise last (by simp)
  rcases perform_of_open final still with open_still | ⟨rfl, hret, hcalls, hpc⟩
  · have longer : outer.length + 1 ≤
        (((machine.performAll between).after.perform last).after.core.calls).length := by
      have := open_still.length_le
      rwa [List.length_append] at this
    have back' : (((machine.performAll between).after.perform last).after.core.calls).length
        = outer.length := back
    omega
  · exact ⟨rfl, hret, hcalls, hpc⟩

/-- On every machine that can be reached, steps treat the stack as a list of calls,
and calls nest like brackets: take a call that was executed and any steps, ticks,
key changes, loads and intents but a reset behind it. The first of them after which
as many calls are open as before the call is a step that executes a return; it goes
on right behind the call, with just the calls open that were open before it. -/
theorem calls_nest (settings : Settings) (random : WordStream) (history : List Command) :
    let machine := ((switchedOn settings random).performAll history).after
    machine.core.calls.length = machine.core.depth ∧
    machine.StepOnCalls ∧
    ∀ (target : Address) (between : List Command) (last : Command),
      machine.step.value = .executed (.call target) →
      (∀ command ∈ between ++ [last], command.isStepwise = true) →
      (∀ early, early <+: between →
        (machine.step.after.performAll early).after.core.depth ≠ machine.core.depth) →
      (machine.step.after.performAll (between ++ [last])).after.core.depth
        = machine.core.depth →
      last = .step ∧
        (machine.step.after.performAll between).after.step.value = .executed .ret ∧
        (machine.step.after.performAll (between ++ [last])).after.core.calls
          = machine.core.calls ∧
        (machine.step.after.performAll (between ++ [last])).after.core.pc
          = machine.core.pc + 2 := by
  intro machine
  have inRange : machine.core.InRange := inRange_performAll settings random history
  have length_after (commands : List Command) :
      (machine.step.after.performAll commands).after.core.calls.length
        = (machine.step.after.performAll commands).after.core.depth :=
    Core.length_calls (invariant_inRange.performAll commands (inRange_step inRange))
  refine ⟨Core.length_calls inRange, stepOnCalls inRange, ?_⟩
  intro target between last called stepwise deeper back
  have nested : machine.core.calls ++ [machine.core.pc] <+: machine.step.after.core.calls :=
    ⟨[], by rw [List.append_nil, (calls_step_of_call called).1]⟩
  refine return_of_open between last stepwise nested ?_ ?_
  · intro early within
    rw [length_after, Core.length_calls inRange]
    exact deeper early within
  · rw [length_after, Core.length_calls inRange]
    exact back

/-- A subroutine that calls another one: both return behind their calls. -/
example :
    let program : List Byte := [0x22, 0x04, 0x00, 0x00, 0x22, 0x08, 0x00, 0xEE, 0x00, 0xEE]
    let loaded := ((switchedOn {} { word := fun _ => 0 }).performAll [.load program]).after
    (steps 1 loaded).core.calls = [0x200] ∧ (steps 2 loaded).core.calls = [0x200, 0x204] ∧
      (steps 3 loaded).core.calls = [0x200] ∧ (steps 3 loaded).core.pc = 0x206 ∧
      (steps 4 loaded).core.calls = [] ∧ (steps 4 loaded).core.pc = 0x202 := by
  decide +kernel

end Machine

end ChipEight
