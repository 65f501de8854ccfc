import ChipEight.Proofs.Core.Transfer
import ChipEight.Proofs.Machine.Fault
import Mathlib.Algebra.Ring.Nat
/-!
# Chains of transfers

Transfers of registers one after the other, in a dialect where each of them moves the index behind
its bytes. A chain of stores fills memory without a gap, and a chain of restores from the same
place takes the bytes up again in the same portions, whatever happens to the registers in between.
The last transfer of a chain may end with memory itself; the index is zero then.

## Main definitions

- `Round` — a transfer, and what happens to the core in front of it
- `Passage` — a transfer that ran, between two cores
- `Chain` — transfers one after the other

## Main statements

- `Chain.exists_of_room` — a chain runs if its bytes fit in memory
- `Chain.stored`, `Chain.restored` — the bytes of a chain of stores, and of one of restores
- `Chain.taken_eq_given` — a chain of restores behind a chain of stores
- `Machine.step_of_store_without_room` — a store that does not fit any more
- `Core.transfers_contiguous` — all of it together
-/

namespace ChipEight

/-- A transfer of the registers up to `x`, and what happens to the core in front of it: anything
that leaves the index and memory alone. -/
structure Round where
  x : Register
  prepare : Core → Core
  index_prepare : ∀ core, (prepare core).index = core.index
  memory_prepare : ∀ core, (prepare core).memory = core.memory

/-- The number of bytes that all the transfers copy. -/
def Round.total (rounds : List Round) : Nat :=
  ((rounds.map Round.x).map fun x => x.val + 1).sum

/-- A transfer of the registers up to `x` that ran. -/
structure Passage where
  x : Register
  before : Core
  after : Core

namespace Passage

/-- The registers that are transferred, as they were in front of the transfer. -/
def given (passage : Passage) : List Byte :=
  (passage.before.registersTo passage.x).toList

/-- The registers that are transferred, as they are behind the transfer. -/
def taken (passage : Passage) : List Byte :=
  (passage.after.registersTo passage.x).toList

@[simp] theorem length_given (passage : Passage) : passage.given.length = passage.x.val + 1 :=
  Vector.length_toList

@[simp] theorem length_taken (passage : Passage) : passage.taken.length = passage.x.val + 1 :=
  Vector.length_toList

end Passage

/-- Transfers one after the other, all of which run, from a core to a core. -/
inductive Chain (dialect : Dialect) (transfer : Register → Instruction) :
    Core → List Round → List Passage → Core → Prop where
  | nil (core : Core) : Chain dialect transfer core [] [] core
  | cons {core after last : Core} {round : Round} {rest : List Round} {passages : List Passage}
      (ran : ∀ byte, (transfer round.x).execute dialect byte (round.prepare core)
        = .ok (.next after))
      (others : Chain dialect transfer after rest passages last) :
      Chain dialect transfer core (round :: rest)
        (⟨round.x, round.prepare core, after⟩ :: passages) last

variable {dialect : Dialect} {transfer : Register → Instruction} {core after last : Core}
  {round : Round} {rounds : List Round} {passages : List Passage} {position : Nat} {byte : Byte}

namespace Round

theorem total_cons (round : Round) (rest : List Round) :
    total (round :: rest) = round.x.val + 1 + total rest := by
  rw [total, List.map_cons, List.map_cons, List.sum_cons]
  rfl

/-- A transfer that has room finds the index that the core in front of its round has. -/
theorem toNat_index_prepare (place : core.index.toNat = position % 4096)
    (room : position + (round.x.val + 1) ≤ 4096) :
    (round.prepare core).index.toNat = position := by
  rw [round.index_prepare, place]
  omega

theorem exists_ran (moves : dialect.transfersMoveIndex = true)
    (transfers : transfer round.x = .store round.x ∨ transfer round.x = .restore round.x)
    (place : core.index.toNat = position % 4096) (room : position + (round.x.val + 1) ≤ 4096) :
    ∃ after,
      (∀ byte, (transfer round.x).execute dialect byte (round.prepare core) = .ok (.next after)) ∧
      after.index.toNat = (position + (round.x.val + 1)) % 4096 := by
  have found := toNat_index_prepare place room
  have inside : (round.prepare core).index.toNat + round.x.val + 1 ≤ 4096 := by omega
  obtain ⟨after, ran, index⟩ := Core.exists_transferred dialect transfers inside
  rw [found, Dialect.indexBehind, if_pos moves] at index
  exact ⟨after, ran, index⟩

/-- A store puts its bytes where the index stands, and moves on behind them. -/
theorem stored_of_ran (moves : dialect.transfersMoveIndex = true)
    (place : core.index.toNat = position % 4096) (room : position + (round.x.val + 1) ≤ 4096)
    (ran : (Instruction.store round.x).execute dialect byte (round.prepare core)
      = .ok (.next after)) :
    after.index.toNat = (position + (round.x.val + 1)) % 4096 ∧
      after.memory.HoldsBytes position ((round.prepare core).registersTo round.x).toList ∧
      ∀ address, address < position ∨ position + (round.x.val + 1) ≤ address →
        after.memory[address]? = core.memory[address]? := by
  obtain ⟨bytes, elsewhere, index, -⟩ := Core.stored_of_ran ran
  rw [toNat_index_prepare place room] at bytes elsewhere index
  rw [Dialect.indexBehind, if_pos moves] at index
  rw [round.memory_prepare] at elsewhere
  exact ⟨index, bytes, elsewhere⟩

/-- A restoring takes its bytes from where the index stands, and moves on behind them. -/
theorem restored_of_ran (moves : dialect.transfersMoveIndex = true)
    (place : core.index.toNat = position % 4096) (room : position + (round.x.val + 1) ≤ 4096)
    (ran : (Instruction.restore round.x).execute dialect byte (round.prepare core)
      = .ok (.next after)) :
    after.index.toNat = (position + (round.x.val + 1)) % 4096 ∧
      core.memory.HoldsBytes position (after.registersTo round.x).toList ∧
      after.memory = core.memory := by
  obtain ⟨bytes, -, index, rest⟩ := Core.restored_of_ran ran
  rw [toNat_index_prepare place room] at bytes index
  rw [Dialect.indexBehind, if_pos moves] at index
  rw [round.memory_prepare] at bytes
  refine ⟨index, bytes, ?_⟩
  rw [rest]
  exact round.memory_prepare core

end Round

namespace Chain

/-- A chain whose bytes fit between the index and the end of memory runs, and leaves the index
behind them. The position counts on where the index wraps, which is at the end of the chain or not
at all. -/
theorem exists_of_room (moves : dialect.transfersMoveIndex = true)
    (transfers : ∀ x, transfer x = .store x ∨ transfer x = .restore x)
    (place : core.index.toNat = position % 4096) (room : position + Round.total rounds ≤ 4096) :
    ∃ passages last, Chain dialect transfer core rounds passages last ∧
      last.index.toNat = (position + Round.total rounds) % 4096 := by
  induction rounds generalizing core position with
  | nil => exact ⟨[], core, .nil core, place⟩
  | cons round rest ih =>
    rw [Round.total_cons] at room
    obtain ⟨after, ran, index⟩ := Round.exists_ran moves (transfers round.x) place (by omega)
    obtain ⟨passages, last, others, behind⟩ := ih index (by omega)
    refine ⟨_, last, .cons ran others, ?_⟩
    rw [behind, Round.total_cons, Nat.add_assoc]

/-- A chain transfers the registers that its rounds name. -/
theorem map_x (chain : Chain dialect transfer core rounds passages last) :
    passages.map Passage.x = rounds.map Round.x := by
  induction chain with
  | nil => rfl
  | cons ran others ih => rw [List.map_cons, List.map_cons, ih]

theorem map_length (chain : Chain dialect transfer core rounds passages last)
    {portion : Passage → List Byte}
    (length : ∀ passage, (portion passage).length = passage.x.val + 1) :
    (passages.map portion).map List.length = (rounds.map Round.x).map fun x => x.val + 1 := by
  rw [← chain.map_x, List.map_map, List.map_map]
  exact List.map_congr_left fun passage _ => length passage

/-- A chain of stores leaves its bytes in memory, one portion behind the other, and no other byte
has changed. -/
theorem stored (moves : dialect.transfersMoveIndex = true)
    (chain : Chain dialect .store core rounds passages last)
    (place : core.index.toNat = position % 4096) (room : position + Round.total rounds ≤ 4096) :
    last.memory.HoldsBytes position (passages.map Passage.given).flatten ∧
      ∀ address, address < position ∨ position + Round.total rounds ≤ address →
        last.memory[address]? = core.memory[address]? := by
  induction chain generalizing position with
  | nil core => exact ⟨fun k inside => absurd inside (Nat.not_lt_zero k), fun _ _ => rfl⟩
  | @cons core after last round rest passages ran others ih =>
    rw [Round.total_cons] at room ⊢
    obtain ⟨index, bytes, elsewhere⟩ := Round.stored_of_ran moves place (by omega) (ran 0)
    obtain ⟨behind, outside⟩ := ih index (by omega)
    constructor
    · -- the stores that follow start behind these bytes
      refine Memory.HoldsBytes.append (bytes.congr fun k inside => outside _ ?_) ?_
      · rw [Vector.length_toList] at inside
        omega
      · rw [Passage.length_given]
        exact behind
    · intro address far
      rw [outside address (by omega), elsewhere address (by omega)]

/-- A chain of restores takes its bytes from memory, one portion behind the other, and leaves
memory alone. -/
theorem restored (moves : dialect.transfersMoveIndex = true)
    (chain : Chain dialect .restore core rounds passages last)
    (place : core.index.toNat = position % 4096) (room : position + Round.total rounds ≤ 4096) :
    core.memory.HoldsBytes position (passages.map Passage.taken).flatten ∧
      last.memory = core.memory := by
  induction chain generalizing position with
  | nil core => exact ⟨fun k inside => absurd inside (Nat.not_lt_zero k), rfl⟩
  | @cons core after last round rest passages ran others ih =>
    rw [Round.total_cons] at room
    obtain ⟨index, bytes, memory⟩ := Round.restored_of_ran moves place (by omega) (ran 0)
    obtain ⟨behind, same⟩ := ih index (by omega)
    rw [memory] at behind same
    refine ⟨Memory.HoldsBytes.append bytes ?_, same⟩
    rw [Passage.length_taken]
    exact behind

/-- A chain of restores that finds the bytes of a chain of stores of the same registers takes them
up portion by portion. -/
theorem taken_eq_given {again back : Core} {others : List Round} {reads : List Passage}
    {memory : Memory} (stores : Chain dialect .store core rounds passages last)
    (restores : Chain dialect .restore again others reads back)
    (registers : others.map Round.x = rounds.map Round.x)
    (held : memory.HoldsBytes position (passages.map Passage.given).flatten)
    (found : memory.HoldsBytes position (reads.map Passage.taken).flatten) :
    reads.map Passage.taken = passages.map Passage.given := by
  -- the same bytes altogether, cut at the same places
  have lengths : (reads.map Passage.taken).map List.length
      = (passages.map Passage.given).map List.length := by
    rw [restores.map_length Passage.length_taken, stores.map_length Passage.length_given, registers]
  refine List.eq_iff_flatten_eq.mpr ⟨held.unique found ?_, lengths⟩
  rw [List.length_flatten, List.length_flatten, lengths]

end Chain

/-- A store of more bytes than there are between the index and the end of memory fails, and leaves
index and memory as they are. -/
theorem Machine.step_of_store_without_room {machine : Machine} {word : Word}
    (running : machine.core.control = .running)
    (holds : machine.core.memory.HoldsWord machine.core.pc word)
    (store : word.group = 0xF ∧ word.lowByte = 0x55) (low : machine.core.index.toNat < 4096)
    (full : 4096 < machine.core.index.toNat + word.x.val + 1) :
    machine.step.value = .failed (.addressOutOfRange 4096) ∧
      machine.step.after.core.index = machine.core.index ∧
      machine.step.after.core.memory = machine.core.memory := by
  have first_outside : max 4096 machine.core.index = 4096 := by
    refine UInt16.toNat_inj.mp ?_
    rw [Word.toNat_max]
    exact Nat.max_eq_left (Nat.le_of_lt low)
  have failed : machine.step.value = .failed (.addressOutOfRange 4096) := by
    rw [← first_outside]
    exact failed_of_stepFault running (.transfer word holds ⟨store.1, Or.inl store.2⟩ full)
  rw [after_step_of_failed failed]
  exact ⟨failed, rfl, rfl⟩

/-- In a dialect whose transfers move the index, stores one after the other run as long as their
bytes fit between the index and the end of memory, whatever happens to the registers in between.
They fill memory from the index on with the registers as they were at each store, leave every other
byte, and leave the index behind the last byte, which is zero at the end of memory. Restores of the
same registers from the same place give back what each store has put there. If memory does not end
with the last store, one more store that has no room fails and leaves index and memory alone. -/
theorem Core.transfers_contiguous (moves : dialect.transfersMoveIndex = true)
    (low : core.index.toNat ≤ 0xFFF) (room : core.index.toNat + Round.total rounds ≤ 4096) :
    let start := core.index.toNat
    let stop := start + Round.total rounds
    ∃ passages last, Chain dialect .store core rounds passages last ∧
      last.index.toNat = stop % 4096 ∧
      (passages.map Passage.given).flatten.length = Round.total rounds ∧
      last.memory.HoldsBytes start (passages.map Passage.given).flatten ∧
      (∀ address, address < start ∨ stop ≤ address →
        last.memory[address]? = core.memory[address]?) ∧
      (∀ again : Core, again.index = core.index → again.memory = last.memory →
        ∀ others, others.map Round.x = rounds.map Round.x →
          ∃ reads back, Chain dialect .restore again others reads back ∧
            back.index.toNat = stop % 4096 ∧ back.memory = last.memory ∧
            reads.map Passage.taken = passages.map Passage.given) ∧
      (stop < 4096 → ∀ machine : Machine, machine.core.control = .running →
        machine.core.index = last.index → machine.core.memory = last.memory →
        ∀ word, last.memory.HoldsWord machine.core.pc word →
          word.group = 0xF ∧ word.lowByte = 0x55 → 4096 < stop + word.x.val + 1 →
          machine.step.value = .failed (.addressOutOfRange 4096) ∧
            machine.step.after.core.index = last.index ∧
            machine.step.after.core.memory = last.memory) := by
  intro start stop
  have place : core.index.toNat = start % 4096 := by omega
  obtain ⟨passages, last, stores, index⟩ :=
    Chain.exists_of_room moves (fun _ => Or.inl rfl) place room
  obtain ⟨bytes, elsewhere⟩ := stores.stored moves place room
  refine ⟨passages, last, stores, index, ?_, bytes, elsewhere, ?_, ?_⟩
  · rw [List.length_flatten, stores.map_length Passage.length_given, Round.total]
  · intro again same memory others registers
    have total : Round.total others = Round.total rounds := by
      rw [Round.total, registers, Round.total]
    have place' : again.index.toNat = start % 4096 := by rw [same]; exact place
    have room' : start + Round.total others ≤ 4096 := by rw [total]; exact room
    obtain ⟨reads, back, restores, behind⟩ :=
      Chain.exists_of_room moves (fun _ => Or.inr rfl) place' room'
    obtain ⟨found, kept⟩ := restores.restored moves place' room'
    rw [memory] at found kept
    rw [total] at behind
    exact ⟨reads, back, restores, behind, kept,
      stores.taken_eq_given restores registers bytes found⟩
  · intro inside machine running sameIndex sameMemory word holds store full
    have stands : machine.core.index.toNat = stop := by
      rw [sameIndex, index]
      exact Nat.mod_eq_of_lt inside
    rw [← sameMemory] at holds
    have refused := Machine.step_of_store_without_room running holds store
      (by rw [stands]; exact inside) (by rw [stands]; exact full)
    rw [sameIndex, sameMemory] at refused
    exact refused

/-- Three registers and then five others fill memory up to its end, where the index wraps around to
zero. Behind the first three there is no room for six. -/
theorem Core.transfers_contiguous_to_end :
    let core : Core := { Core.fresh with
      index := 0xFF8
      registers := Vector.ofFn fun r => UInt8.ofNat (0xA0 + r.val)
      memory := overwrite Memory.fresh 0x300 [0xF5, 0x55] }
    let three : Round := ⟨2, id, fun _ => rfl, fun _ => rfl⟩
    let five : Round :=
      ⟨4, fun core => { core with registers := Vector.replicate 16 0x77 }, fun _ => rfl,
        fun _ => rfl⟩
    Dialect.cosmacVip.transfersMoveIndex = true ∧ core.index.toNat ≤ 0xFFF ∧
      core.index.toNat + Round.total [three, five] ≤ 4096 ∧
      (∃ passages last, Chain .cosmacVip .store core [three, five] passages last ∧
        last.index = 0 ∧ last.memory[0]? = core.memory[0]? ∧
        last.memory.HoldsBytes 0xFF8 [0xA0, 0xA1, 0xA2, 0x77, 0x77, 0x77, 0x77, 0x77]) ∧
      ∃ last : Core, last.index = 0xFFB ∧
        let machine : Machine :=
          { core := { last with pc := 0x300, control := .running }
            settings := {}
            random := .cycle [] }
        machine.step.value = .failed (.addressOutOfRange 4096) ∧
          machine.step.after.core.memory = last.memory := by
  intro core three five
  have moves : Dialect.cosmacVip.transfersMoveIndex = true := rfl
  have low : core.index.toNat ≤ 0xFFF := by decide
  have room : core.index.toNat + Round.total [three, five] ≤ 4096 := by decide
  refine ⟨moves, low, room, ?_, ?_⟩
  · obtain ⟨passages, last, stores, index, -, bytes, elsewhere, -⟩ :=
      transfers_contiguous moves low room
    have wrapped : (core.index.toNat + Round.total [three, five]) % 4096 = 0 := by decide
    refine ⟨passages, last, stores, UInt16.toNat_inj.mp (index.trans wrapped),
      elsewhere 0 (Or.inl (by decide)), ?_⟩
    cases stores with
    | cons first stores =>
      cases stores with
      | cons second stores =>
        cases stores
        exact bytes
  · have room' : core.index.toNat + Round.total [three] ≤ 4096 := by decide
    obtain ⟨passages, last, -, index, -, -, elsewhere, -, refused⟩ :=
      transfers_contiguous moves low room'
    have placed : core.memory.HoldsBytes 0x300 [0xF5, 0x55] :=
      fun _ inside => getElem?_overwrite_add Memory.fresh (by decide) inside
    have holds : last.memory.HoldsBytes 0x300 [0xF5, 0x55] := by
      refine placed.congr fun k inside => elsewhere _ (Or.inl ?_)
      have below : k < 2 := inside
      have start : core.index.toNat = 0xFF8 := rfl
      omega
    have word : last.memory.HoldsWord 0x300 0xF555 :=
      Memory.holdsWord_of_bytes (holds 0 (by decide)) (holds 1 (by decide)) rfl
    have index' : last.index = 0xFFB := UInt16.toNat_inj.mp index
    refine ⟨last, index', ?_⟩
    intro machine
    obtain ⟨failed, -, memory⟩ :=
      refused (by decide) machine rfl rfl rfl 0xF555 word (by decide) (by decide)
    exact ⟨failed, memory⟩

end ChipEight
