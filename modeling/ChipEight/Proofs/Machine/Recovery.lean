import ChipEight.Proofs.Machine.Fault
/-!
# Recovery from a lost program counter

A program counter outside memory leaves nothing to fetch. Every step then fails and moves it on by
one instruction, which can go on for some thirty thousand steps but not for ever: a program counter
is a word, so it wraps around and comes back to the bottom of memory, to address zero or one as it
was even or odd.

## Main definitions

- `Machine.movedTo` — the machine with another program counter
- `Fault.unfetched` — the fault of a fetch outside memory

## Main statements

- `Machine.step_of_outside` — one step outside memory
- `Machine.steps_of_outside`, `Machine.stepResults_of_outside` — any number of steps, up to the
  one that wraps around
- `Machine.recovers_by_wrapping` — the whole way back
-/

namespace ChipEight

/-- The fault of a fetch at an address outside memory. -/
def Fault.unfetched (pc : Word) : Fault :=
  .addressOutOfRange (max 4096 pc)

/-- Where both bytes lie in memory, they hold a word. -/
theorem Memory.exists_holdsWord (memory : Memory) {address : Word}
    (inside : address.toNat + 1 < size) : ∃ word, memory.HoldsWord address word :=
  ⟨.ofBytes memory[address.toNat] memory[address.toNat + 1], inside, Word.toNat_ofBytes _ _⟩

namespace Machine

/-- The machine with its program counter set to an address, which is reduced to a word. -/
def movedTo (machine : Machine) (address : Nat) : Machine :=
  { machine with core := { machine.core with pc := UInt16.ofNat address } }

variable {machine : Machine} {count : Nat}

theorem movedTo_pc (machine : Machine) : machine.movedTo machine.core.pc.toNat = machine := by
  rw [movedTo, UInt16.ofNat_toNat]

theorem pc_movedTo {address : Nat} (bound : address < 65536) :
    (machine.movedTo address).core.pc.toNat = address :=
  UInt16.toNat_ofNat_of_lt' bound

/-- Addresses that a word cannot tell apart are the same place. -/
theorem movedTo_mod (machine : Machine) (address : Nat) :
    machine.movedTo (address % 65536) = machine.movedTo address := by
  have same : UInt16.ofNat (address % 65536) = UInt16.ofNat address :=
    UInt16.toNat_inj.mp (by simp)
  rw [movedTo, movedTo, same]

/-- Outside memory a step fails to fetch, and goes on by one instruction. -/
theorem step_of_outside (running : machine.core.control = .running)
    (outside : 0xFFF ≤ machine.core.pc.toNat) :
    machine.step = machine.fail (.unfetched machine.core.pc) := by
  have refused : machine.core.fetch = .error (.unfetched machine.core.pc) :=
    Core.fetch_eq_error_iff.mpr ⟨show 4096 < machine.core.pc.toNat + 2 by omega, rfl⟩
  exact (Turn.unfetched running _ refused).step_eq

/-- A step from an address outside memory moves the machine to the next instruction. -/
theorem step_movedTo {address : Nat} (running : machine.core.control = .running)
    (outside : 0xFFF ≤ address) (bound : address < 65536) :
    (machine.movedTo address).step.value = .failed (.unfetched (UInt16.ofNat address)) ∧
      (machine.movedTo address).step.after = machine.movedTo (address + 2) := by
  have running' : (machine.movedTo address).core.control = .running := running
  have outside' : 0xFFF ≤ (machine.movedTo address).core.pc.toNat := by
    rw [pc_movedTo bound]
    exact outside
  rw [step_of_outside running' outside']
  refine ⟨rfl, ?_⟩
  have next : UInt16.ofNat (address + 2) = UInt16.ofNat address + 2 := UInt16.ofNat_add address 2
  rw [movedTo, movedTo, next]
  rfl

/-- As long as the program counter has not wrapped around, steps outside memory do nothing but
move it on. -/
theorem steps_of_outside (running : machine.core.control = .running)
    (outside : 0xFFF ≤ machine.core.pc.toNat)
    (unwrapped : machine.core.pc.toNat + 2 * count ≤ 65537) :
    steps count machine = machine.movedTo (machine.core.pc.toNat + 2 * count) := by
  induction count with
  | zero => exact machine.movedTo_pc.symm
  | succ count ih =>
    -- the last step starts from an address that is still a word
    have outside' : 0xFFF ≤ machine.core.pc.toNat + 2 * count := by omega
    have last := (step_movedTo running outside' (by omega)).2
    rw [steps_add, ih (by omega), steps, steps, last]
    rfl

theorem stepResults_of_outside (running : machine.core.control = .running)
    (outside : 0xFFF ≤ machine.core.pc.toNat)
    (unwrapped : machine.core.pc.toNat + 2 * count ≤ 65537) :
    stepResults count machine = (List.range count).map fun passed =>
      .failed (.unfetched (UInt16.ofNat (machine.core.pc.toNat + 2 * passed))) := by
  induction count with
  | zero => rfl
  | succ count ih =>
    have outside' : 0xFFF ≤ machine.core.pc.toNat + 2 * count := by omega
    have last := (step_movedTo running outside' (by omega)).1
    rw [stepResults_add, ih (by omega), steps_of_outside running outside (by omega), stepResults,
      stepResults, last, List.range_succ, List.map_append]
    rfl

/-- A running machine whose program counter is outside memory fails to fetch in every step until
the program counter wraps around, which takes half as many steps as there are addresses to the
end of the words, rounded up. Each of these steps names the first address of its fetch that lies
outside memory. Behind them the program counter is zero if it was even and one if it was odd, and
nothing else has changed; the next step fetches the word that stands there. -/
theorem recovers_by_wrapping (running : machine.core.control = .running)
    (outside : 0xFFF ≤ machine.core.pc.toNat) :
    let start := machine.core.pc.toNat
    let count := (65536 - start + 1) / 2
    let last := steps count machine
    let bottom : Word := if start % 2 = 0 then 0 else 1
    (∀ passed < count, ∃ address : Word,
      (stepResults count machine)[passed]? = some (.failed (.addressOutOfRange address)) ∧
        address.toNat = max 4096 (start + 2 * passed)) ∧
    last = { machine with core := { machine.core with pc := bottom } } ∧
    ∃ word, machine.core.memory.HoldsWord bottom word ∧ last.core.fetch = .ok word ∧
      last.step.after.core.opcode = word := by
  intro start count last bottom
  have start_lt : start < 65536 := machine.core.pc.toNat_lt
  have unwrapped : start + 2 * count ≤ 65537 := by omega
  have wrapped : last = { machine with core := { machine.core with pc := bottom } } := by
    have bottom_eq : UInt16.ofNat (start % 2) = bottom := by
      rcases Nat.mod_two_eq_zero_or_one start with even | odd
      · rw [even]; exact (if_pos even).symm
      · rw [odd]; exact (if_neg (by omega)).symm
    calc last
        = machine.movedTo (start + 2 * count) := steps_of_outside running outside unwrapped
      _ = machine.movedTo (start % 2) := by
        rw [← movedTo_mod, show (start + 2 * count) % 65536 = start % 2 by omega]
      _ = _ := by rw [movedTo, bottom_eq]
  refine ⟨fun passed lt => ?_, wrapped, ?_⟩
  · refine ⟨max 4096 (UInt16.ofNat (start + 2 * passed)), ?_, ?_⟩
    · rw [stepResults_of_outside running outside unwrapped, List.getElem?_map,
        List.getElem?_range lt]
      rfl
    · rw [Word.toNat_max, UInt16.toNat_ofNat_of_lt' (show start + 2 * passed < 65536 by omega)]
      rfl
  · have low : bottom.toNat + 1 < Memory.size := by
      show (if start % 2 = 0 then (0 : Word) else 1).toNat + 1 < Memory.size
      split <;> decide
    obtain ⟨word, holds⟩ := machine.core.memory.exists_holdsWord low
    have running' : last.core.control = .running := by
      rw [wrapped]
      exact running
    have fetched : last.core.fetch = .ok word := by
      rw [wrapped]
      exact Core.fetch_eq_ok_iff_holdsWord.mpr holds
    exact ⟨word, holds, fetched, (opcode_step running').trans (Core.latched_of_fetched fetched)⟩

/-- The longest way back starts right behind the last address that holds a word. It takes 30721
steps, of which the last one fails at the greatest of all words, and it ends at address one. -/
theorem recovers_by_wrapping_from_last_byte :
    let machine : Machine :=
      { core := { Core.fresh with pc := 0xFFF }, settings := {}, random := .cycle [] }
    machine.core.control = .running ∧ 0xFFF ≤ machine.core.pc.toNat ∧
      (∃ address : Word, (stepResults 30721 machine)[30720]?
        = some (.failed (.addressOutOfRange address)) ∧ address.toNat = 0xFFFF) ∧
      (steps 30721 machine).core.pc = 1 ∧
      (steps 30721 machine).step.after.core.opcode = 0x9090 := by
  intro machine
  have running : machine.core.control = .running := rfl
  have outside : 0xFFF ≤ machine.core.pc.toNat := by decide
  have recovery := recovers_by_wrapping running outside
  have start : machine.core.pc.toNat = 0xFFF := rfl
  simp only [start, Nat.reduceSub, Nat.reduceAdd, Nat.reduceDiv, Nat.reduceMod] at recovery
  obtain ⟨failures, wrapped, word, -, fetched, opcode⟩ := recovery
  have glyph : machine.core.memory.HoldsWord 1 0x9090 := ⟨by decide, by decide +kernel⟩
  have word_eq : word = 0x9090 := by
    rw [wrapped, Core.fetch_eq_ok_iff_holdsWord.mpr glyph] at fetched
    exact (Except.ok.inj fetched).symm
  refine ⟨running, outside, failures 30720 (by decide), ?_, opcode.trans word_eq⟩
  rw [wrapped]
  rfl

end Machine

end ChipEight
