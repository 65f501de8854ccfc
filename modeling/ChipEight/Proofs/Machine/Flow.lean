import ChipEight.Proofs.Instruction.ReadSet
import ChipEight.Proofs.Machine.Fault
import ChipEight.Proofs.Machine.Likeness
/-!
# Flow of control

Where a machine goes on behind a step. An instruction that runs goes to its destination, which
is its target, the call it returns from, or the next instruction but for a skip; one that fails
goes to the next instruction, and one that waits stays.

## Main definitions

- `Instruction.skips` — the condition of a skip
- `Core.following`, `Instruction.destination` — where the next instruction stands, and where an
  instruction that runs goes on
- `Instruction.Opposite` — skips with opposite conditions
- `Core.SteersAlike` — what decides where a step goes on, apart from the word that is fetched

## Main statements

- `Instruction.toNat_pc_of_execute` — an instruction goes on at its destination
- `Instruction.execute_alike_of_steersAlike`, `Machine.pc_step_congr` — nothing else decides where
- `Machine.goes_on_at_destination` — every way in which a step can go
-/

namespace ChipEight

/-- The address of the next instruction, or of the one behind that. Addresses are words, and so
they wrap. -/
def Core.following (core : Core) (skips : Bool) : Nat :=
  (core.pc.toNat + if skips then 4 else 2) % 65536

/-- Whether an instruction is a skip and its condition holds. -/
def Instruction.skips (core : Core) : Instruction → Bool
  | .skipEqByte x byte => core.get x == byte
  | .skipNeByte x byte => core.get x != byte
  | .skipEq x y => core.get x == core.get y
  | .skipNe x y => core.get x != core.get y
  | .skipKey x => core.keypad[(core.get x).toNat]? == some true
  | .skipNoKey x => core.keypad[(core.get x).toNat]? != some true
  | _ => false

/-- The address at which the machine goes on behind an instruction that runs. The sum of a target
and its offset is not reduced, so it can leave the range of addresses. -/
def Instruction.destination (core : Core) : Instruction → Nat
  -- the stack holds the address of the call itself
  | .ret => (core.stack[core.sp.toNat - 1]?.getD 0 + 2).toNat
  | .sys target | .jump target | .call target => target.val
  | .jumpOffset target => target.val + (core.get 0).toNat
  | instruction => core.following (instruction.skips core)

/-- Two skips on the same operands, one of them where the other is not taken. -/
inductive Instruction.Opposite : Instruction → Instruction → Prop where
  | byte (x : Register) (byte : Byte) : Opposite (.skipEqByte x byte) (.skipNeByte x byte)
  | register (x y : Register) : Opposite (.skipEq x y) (.skipNe x y)
  | key (x : Register) : Opposite (.skipKey x) (.skipNoKey x)

/-- The cores agree in all that can decide where a fetched word leads. -/
structure Core.SteersAlike (first second : Core) : Prop where
  pc : second.pc = first.pc
  registers : second.registers = first.registers
  keypad : second.keypad = first.keypad
  sp : second.sp = first.sp
  index : second.index = first.index
  /-- An empty stack has no last call. -/
  lastCall : 0 < first.sp.toNat →
    second.stack[second.sp.toNat - 1]? = first.stack[first.sp.toNat - 1]?

variable {dialect other : Dialect} {byte otherByte : Byte} {core after first second : Core}
  {instruction opposite : Instruction}

/-- A number above `F` names no key. -/
theorem Core.holdsKey_of_no_key {x : Register} (no_key : 0xF < (core.get x).toNat) :
    core.holdsKey x = false :=
  dif_neg (Nat.not_lt.mpr no_key)

namespace Instruction

theorem toNat_next_pc (core : Core) : core.next.pc.toNat = core.following false :=
  UInt16.toNat_add core.pc 2

theorem toNat_skipIf_pc (condition : Bool) (core : Core) :
    (core.skipIf condition).pc.toNat = core.following condition := by
  cases condition with
  | true => exact UInt16.toNat_add core.pc 4
  | false => exact UInt16.toNat_add core.pc 2

theorem toNat_jumpOffset (target : Address) (offset : Byte) :
    (Word.ofAddress target + offset.toUInt16).toNat = target.val + offset.toNat := by
  have := target.isLt
  have := offset.toNat_lt
  rw [UInt16.toNat_add, Word.toNat_ofAddress, UInt8.toNat_toUInt16]
  omega

/-- An instruction that ran goes on at its destination. -/
theorem toNat_pc_of_execute (ran : instruction.execute dialect byte core = .ok (.next after)) :
    after.pc.toNat = instruction.destination core := by
  cases instruction with
  | sys target | jump target => cases ran; exact Word.toNat_ofAddress target
  | jumpOffset target => cases ran; exact toNat_jumpOffset target _
  | skipEqByte x immediate | skipEq x y => cases ran; exact toNat_skipIf_pc _ core
  | skipNeByte x immediate | skipNe x y =>
    cases ran
    rw [toNat_skipIf_pc]
    exact congrArg core.following decide_not
  | skipKey x | skipNoKey x =>
    cases ran
    rw [toNat_skipIf_pc, Core.holdsKey, Keypad.holds_eq]
    rfl
  | ret =>
    obtain ⟨_, hret, hnext⟩ := Except.map_eq_ok_iff.mp ran
    cases hnext
    obtain ⟨-, bound, rfl⟩ := Core.ret_eq_ok_iff.mp hret
    rw [destination, Vector.getElem?_eq_getElem bound]
    rfl
  | call target =>
    obtain ⟨_, hcall, hnext⟩ := Except.map_eq_ok_iff.mp ran
    cases hnext
    obtain ⟨room, rfl⟩ := Core.call_eq_ok_iff.mp hcall
    exact Word.toNat_ofAddress target
  | draw | decimal | store | restore =>
    have effect := effect_of_execute ran
    cases effect with
    | registers isLocal => cases isLocal
    | _ => exact toNat_next_pc core
  | operate op x y =>
    cases ran
    obtain ⟨registers, operated⟩ := Core.operate_eq dialect op x y core
    rw [operated]
    exact toNat_next_pc core
  | awaitKey x =>
    simp only [execute, Core.receiveKey?] at ran
    cases hkey : core.keypad.first? with
    | none => simp [hkey] at ran
    | some key =>
      simp only [hkey, Option.map_some] at ran
      cases ran
      exact toNat_next_pc core
  | _ => cases ran; exact toNat_next_pc core

/-- A return that runs finds a call on the stack. -/
theorem toNat_sp_pos_of_execute_ret
    (ran : execute dialect byte core .ret = .ok (.next after)) : 0 < core.sp.toNat := by
  obtain ⟨_, returned, -⟩ := Except.map_eq_ok_iff.mp ran
  obtain ⟨nonempty, -⟩ := Core.ret_eq_ok_iff.mp returned
  exact Nat.pos_of_ne_zero fun zero => nonempty (UInt8.toNat_inj.mp zero)

theorem destination_congr (like : Core.SteersAlike first second)
    (ran : instruction.execute dialect byte first = .ok (.next after)) :
    instruction.destination second = instruction.destination first := by
  have get (r : Register) : second.get r = first.get r := by
    rw [Core.get, Core.get, like.registers]
  have skips : instruction.skips second = instruction.skips first := by
    cases instruction <;> simp only [Instruction.skips, get, like.keypad]
  have following (skips : Bool) : second.following skips = first.following skips := by
    rw [Core.following, Core.following, like.pc]
  cases instruction
  case ret => rw [destination, destination, like.lastCall (toNat_sp_pos_of_execute_ret ran)]
  all_goals simp only [destination, skips, following, get]

/-- Cores that agree in what steers them let an instruction go the same way, whatever the dialect
and the random byte. -/
theorem execute_alike_of_steersAlike (like : Core.SteersAlike first second)
    (instruction : Instruction) (dialect other : Dialect) (byte otherByte : Byte) :
    Outcome.Alike (fun first second => second.pc = first.pc)
      (instruction.execute dialect byte first) (instruction.execute other otherByte second) := by
  have waits_iff : instruction.execute other otherByte second = .ok .awaitingKey ↔
      instruction.execute dialect byte first = .ok .awaitingKey := by
    rw [execute_eq_awaitingKey_iff, execute_eq_awaitingKey_iff, like.keypad]
  rcases outcome : instruction.execute dialect byte first with fault | after | _
  · rw [execute_error_congr like.index like.sp like.pc outcome]
    exact .failed fault
  · rcases outcome' : instruction.execute other otherByte second with fault | after' | _
    · rw [execute_error_congr like.index.symm like.sp.symm like.pc.symm outcome'] at outcome
      cases outcome
    · refine .ran (UInt16.toNat_inj.mp ?_)
      rw [toNat_pc_of_execute outcome, toNat_pc_of_execute outcome',
        destination_congr like outcome]
    · rw [waits_iff.mp outcome'] at outcome
      cases outcome
  · rw [waits_iff.mpr outcome]
    exact .waiting

/-- Of two opposite skips one goes to the next instruction and the other one to the one behind
it. -/
theorem Opposite.execute (opposites : Opposite instruction opposite) (dialect : Dialect)
    (byte : Byte) (core : Core) :
    ∃ taken, instruction.execute dialect byte core = .ok (.next (core.skipIf taken)) ∧
      opposite.execute dialect byte core = .ok (.next (core.skipIf (!taken))) := by
  cases opposites with
  | byte x immediate =>
    refine ⟨core.get x = immediate, rfl, ?_⟩
    rw [← decide_not]
    rfl
  | register x y =>
    refine ⟨core.get x = core.get y, rfl, ?_⟩
    rw [← decide_not]
    rfl
  | key x => exact ⟨core.holdsKey x, rfl, rfl⟩

end Instruction

namespace Machine

/-- The program counter behind a step of a running machine is told by the fetched word and by
what steers the core. -/
theorem pc_step_congr {first second : Machine} {word : Word}
    (running : first.core.control = .running) (running' : second.core.control = .running)
    (fetched : first.core.fetch = .ok word) (fetched' : second.core.fetch = .ok word)
    (like : Core.SteersAlike first.core second.core) :
    second.step.after.core.pc = first.step.after.core.pc := by
  have like_latched : Core.SteersAlike (first.latch word).core (second.latch word).core :=
    ⟨like.pc, like.registers, like.keypad, like.sp, like.index, like.lastCall⟩
  have next : second.core.pc + 2 = first.core.pc + 2 := by rw [like.pc]
  rw [step_of_fetched running fetched, step_of_fetched running' fetched']
  cases decoded : Instruction.decode? word with
  | none =>
    rw [executeFetched_of_unknown decoded, executeFetched_of_unknown decoded]
    exact next
  | some instruction =>
    rw [executeFetched_of_decoded decoded, executeFetched_of_decoded decoded]
    have alike := Instruction.execute_alike_of_steersAlike like_latched instruction
      (first.latch word).settings.dialect (second.latch word).settings.dialect
      ((first.latch word).supply instruction).1 ((second.latch word).supply instruction).1
    generalize instruction.execute _ _ (first.latch word).core = one at alike ⊢
    generalize instruction.execute _ _ (second.latch word).core = two at alike ⊢
    cases alike with
    | failed fault => exact next
    | waiting => exact like.pc
    | ran same => exact same

theorem running_of_executed {machine : Machine} {instruction : Instruction}
    (executed : machine.step.value = .executed instruction) : machine.core.control = .running :=
  Decidable.not_not.mp fun idle => by
    rw [step_of_idle idle] at executed
    cases executed

/-- A return that runs finds its call in one of the sixteen slots. -/
theorem sp_of_executed_ret {machine : Machine} (executed : machine.step.value = .executed .ret) :
    0 < machine.core.sp.toNat ∧ machine.core.sp.toNat ≤ 16 := by
  obtain ⟨word, -, -, effect⟩ := effect_of_executed executed
  generalize machine.step.after.core = after at effect
  cases effect with
  | registers isLocal => cases isLocal
  | ret nonempty bound =>
    have pos : machine.core.sp.toNat ≠ 0 := fun zero => nonempty (UInt8.toNat_inj.mp zero)
    have bound : machine.core.sp.toNat - 1 < 16 := bound
    omega

/-- Where a step goes on. An instruction that runs goes on at its destination, which for a return
is behind a call on the stack; from a destination outside memory nothing can be fetched. A failing
step goes on to the next instruction, and one that waits stays. What comes of a fetched word is
told by the program counter, the registers, the keypad, the stack pointer, the index and the last
call on the stack. Opposite skips are taken in opposite cases, and a register that names no key
counts as one that is not held. -/
theorem goes_on_at_destination (machine : Machine) :
    (∀ instruction, machine.step.value = .executed instruction →
      let pc := machine.step.after.core.pc
      pc.toNat = instruction.destination machine.core ∧
      (instruction = .ret → 0 < machine.core.sp.toNat ∧ machine.core.sp.toNat ≤ 16) ∧
      (0xFFE < pc.toNat →
        machine.step.after.step.value = .failed (.addressOutOfRange (max 4096 pc)))) ∧
    (∀ fault, machine.step.value = .failed fault →
      machine.step.after.core.pc = machine.core.pc + 2) ∧
    (machine.step.value = .awaitingKey → machine.step.after.core.pc = machine.core.pc) ∧
    (∀ (other : Machine) (word : Word), machine.core.control = .running →
      other.core.control = .running → machine.core.memory.HoldsWord machine.core.pc word →
      other.core.memory.HoldsWord other.core.pc word →
      Core.SteersAlike machine.core other.core →
        other.step.after.core.pc = machine.step.after.core.pc) ∧
    ∀ (dialect : Dialect) (byte : Byte) (core : Core),
      let next := Except.ok (Outcome.next { core with pc := core.pc + 2 })
      let further := Except.ok (Outcome.next { core with pc := core.pc + 4 })
      (∀ instruction opposite, Instruction.Opposite instruction opposite →
        (instruction.execute dialect byte core = further ∧
          opposite.execute dialect byte core = next) ∨
        (instruction.execute dialect byte core = next ∧
          opposite.execute dialect byte core = further)) ∧
      ∀ x, 0xF < (core.get x).toNat →
        (Instruction.skipKey x).execute dialect byte core = next ∧
        (Instruction.skipNoKey x).execute dialect byte core = further := by
  refine ⟨fun instruction executed => ?_, fun fault failed => ?_, fun awaiting => ?_,
    fun other word running running' holds holds' like => ?_,
    fun dialect byte core => ⟨fun instruction opposite opposites => ?_, fun x no_key => ?_⟩⟩
  · obtain ⟨word, -, -, ran⟩ := ran_of_executed executed
    refine ⟨?_, fun ret => ?_, fun outside => ?_⟩
    · rw [Instruction.toNat_pc_of_execute ran]
      exact (Instruction.destination_congr ⟨rfl, rfl, rfl, rfl, rfl, fun _ => rfl⟩ ran).symm
    · rw [ret] at executed
      exact sp_of_executed_ret executed
    · have running : machine.step.after.core.control = .running := by
        rw [control_step]
        exact running_of_executed executed
      exact failed_of_stepFault running (.unfetched outside)
  · rw [after_step_of_failed failed]
  · rw [after_step_of_awaitingKey awaiting]
    rfl
  · exact pc_step_congr running running' (Core.fetch_eq_ok_iff_holdsWord.mpr holds)
      (Core.fetch_eq_ok_iff_holdsWord.mpr holds') like
  · obtain ⟨taken, ran, ran'⟩ := opposites.execute dialect byte core
    rw [ran, ran']
    cases taken with
    | true => exact Or.inl ⟨rfl, rfl⟩
    | false => exact Or.inr ⟨rfl, rfl⟩
  · have not_held : core.holdsKey x = false := Core.holdsKey_of_no_key no_key
    simp only [Instruction.execute, not_held]
    exact ⟨rfl, rfl⟩

/-- A jump with the largest target and the largest offset leaves memory, and the next step finds
nothing to fetch there. -/
theorem goes_on_at_destination_outside_memory :
    let machine : Machine :=
      { core := { Core.fresh with
          registers := Core.fresh.registers.set 0 0xFF
          memory := overwrite Memory.fresh 0x200 [0xBF, 0xFF] }
        settings := {}
        random := .cycle [] }
    machine.step.value = .executed (.jumpOffset 0xFFF) ∧
      machine.step.after.core.pc = 0x10FE ∧
      machine.step.after.step.value = .failed (.addressOutOfRange 0x10FE) := by
  intro machine
  have executed : machine.step.value = .executed (.jumpOffset 0xFFF) := by decide +kernel
  obtain ⟨destination, -, outside⟩ := machine.goes_on_at_destination.1 _ executed
  have pc : machine.step.after.core.pc = 0x10FE := UInt16.toNat_inj.mp destination
  rw [pc] at outside
  exact ⟨executed, pc, outside (by decide)⟩

end Machine

end ChipEight
