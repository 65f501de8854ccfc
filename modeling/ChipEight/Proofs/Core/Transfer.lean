import ChipEight.Proofs.Instruction.WriteSet
/-!
# Transfers of registers

Storing the registers from `V0` on and restoring them. A transfer copies as many bytes as it names
registers, between these and the memory at the index, and changes nothing else but the index and
the program counter. So each of the two takes the other one back, wherever the index stands.

## Main definitions

- `Memory.HoldsBytes` — bytes stand in memory one after the other
- `Dialect.indexBehind` — where the index stands behind a transfer
- `Core.Stored`, `Core.Restored` — what the two transfers leave

## Main statements

- `Core.exists_stored`, `Core.exists_restored` — a transfer whose bytes lie in memory runs
- `Core.transfer_ran_iff` — and no other one does
- `Core.stored_of_ran`, `Core.restored_of_ran` — what a transfer that ran has left
- `Core.transfers_round_trip` — each takes the other one back
-/

namespace ChipEight

/-- The bytes stand in memory from an address on, one after the other. -/
def Memory.HoldsBytes (memory : Memory) (start : Nat) (bytes : List Byte) : Prop :=
  ∀ k < bytes.length, memory[start + k]? = bytes[k]?

/-- The index behind a transfer of so many bytes. The dialect tells whether it moves, and it wraps
around at the end of memory. -/
def Dialect.indexBehind (dialect : Dialect) (index count : Nat) : Nat :=
  if dialect.transfersMoveIndex then (index + count) % 4096 else index

namespace Memory

variable {memory other : Memory} {start : Nat} {bytes others : List Byte}

/-- Bytes of one number at one place are the same. -/
theorem HoldsBytes.unique (holds : memory.HoldsBytes start bytes)
    (holds' : memory.HoldsBytes start others) (length : others.length = bytes.length) :
    others = bytes := by
  refine List.ext_getElem? fun k => ?_
  by_cases inside : k < bytes.length
  · rw [← holds k inside, ← holds' k (by omega)]
  · rw [List.getElem?_eq_none (by omega), List.getElem?_eq_none (by omega)]

theorem HoldsBytes.congr (holds : memory.HoldsBytes start bytes)
    (same : ∀ k < bytes.length, other[start + k]? = memory[start + k]?) :
    other.HoldsBytes start bytes :=
  fun k inside => (same k inside).trans (holds k inside)

/-- Bytes that stand behind one another stand there as one. -/
theorem HoldsBytes.append (holds : memory.HoldsBytes start bytes)
    (holds' : memory.HoldsBytes (start + bytes.length) others) :
    memory.HoldsBytes start (bytes ++ others) := by
  intro k inside
  rw [List.getElem?_append]
  split
  · next first => exact holds k first
  · next behind =>
    rw [List.length_append] at inside
    have place : start + k = start + bytes.length + (k - bytes.length) := by omega
    rw [place]
    exact holds' _ (by omega)

/-- Memories that hold the same bytes at one place and agree elsewhere are equal. -/
theorem HoldsBytes.ext (holds : memory.HoldsBytes start bytes)
    (holds' : other.HoldsBytes start bytes)
    (elsewhere : ∀ address, address < start ∨ start + bytes.length ≤ address →
      other[address]? = memory[address]?) : other = memory := by
  refine Vector.ext fun address lt => Option.some.inj ?_
  rw [← Vector.getElem?_eq_getElem lt, ← Vector.getElem?_eq_getElem lt]
  by_cases inside : start ≤ address ∧ address < start + bytes.length
  · obtain ⟨k, rfl⟩ := Nat.exists_eq_add_of_le inside.1
    rw [holds k (by omega), holds' k (by omega)]
  · exact elsewhere address (by omega)

theorem holdsBytes_write {length : Nat} (memory : Memory) (span : Span length)
    (bytes : Vector Byte length) : (memory.write span bytes).HoldsBytes span.start bytes.toList :=
  fun _ inside => getElem?_overwrite_add memory (by simpa using span.fits) inside

theorem holdsBytes_read {length : Nat} (memory : Memory) (span : Span length) :
    memory.HoldsBytes span.start (memory.read span).toList := by
  intro k inside
  rw [getElem?_toList_read, if_pos (by simpa using inside)]

end Memory

namespace Core

/-- What a store of the registers up to `x` leaves. -/
structure Stored (dialect : Dialect) (core : Core) (x : Register) (after : Core) : Prop where
  bytes : after.memory.HoldsBytes core.index.toNat (core.registersTo x).toList
  elsewhere : ∀ address, address < core.index.toNat ∨ core.index.toNat + (x.val + 1) ≤ address →
    after.memory[address]? = core.memory[address]?
  index : after.index.toNat = dialect.indexBehind core.index.toNat (x.val + 1)
  /-- No other part of the core has changed. -/
  rest : after = { core with memory := after.memory, index := after.index, pc := core.pc + 2 }

/-- What a restoring of the registers up to `x` leaves. -/
structure Restored (dialect : Dialect) (core : Core) (x : Register) (after : Core) : Prop where
  bytes : core.memory.HoldsBytes core.index.toNat (after.registersTo x).toList
  above : ∀ r, x < r → after.get r = core.get r
  index : after.index.toNat = dialect.indexBehind core.index.toNat (x.val + 1)
  /-- No other part of the core has changed, and so memory has not. -/
  rest : after = { core with registers := after.registers, index := after.index, pc := core.pc + 2 }

variable {dialect : Dialect} {byte : Byte} {core other after : Core} {x : Register}

theorem getElem?_registersTo {r : Register} (le : r ≤ x) (core : Core) :
    (core.registersTo x).toList[r.val]? = some (core.get r) := by
  have lt : r.val < x.val + 1 := Nat.lt_succ_of_le le
  rw [Vector.getElem?_toList, Vector.getElem?_eq_getElem lt]
  simp [registersTo]

theorem get_of_registersTo (same : (other.registersTo x).toList = (core.registersTo x).toList)
    {r : Register} (le : r ≤ x) : other.get r = core.get r := by
  have there := getElem?_registersTo le other
  rw [same, getElem?_registersTo le core] at there
  exact (Option.some.inj there).symm

theorem registersTo_of_get (same : ∀ r ≤ x, other.get r = core.get r) :
    (other.registersTo x).toList = (core.registersTo x).toList := by
  rw [registersTo, registersTo]
  refine congrArg Vector.toList (Vector.ext fun k lt => ?_)
  rw [Vector.getElem_ofFn, Vector.getElem_ofFn]
  exact same _ (Nat.le_of_lt_succ lt)

/-- The sum of a word and a count wraps first at the size of a word and then at that of memory,
which divides it. -/
theorem toNat_indexAfter (dialect : Dialect) (count : Nat) (core : Core) :
    (core.indexAfter dialect count).toNat = dialect.indexBehind core.index.toNat count := by
  rw [indexAfter, Dialect.indexBehind]
  split
  · rw [Word.toNat_mod_size, UInt16.toNat_add, UInt16.toNat_ofNat']
    omega
  · rfl

theorem locate_of_inside (inside : core.index.toNat + x.val + 1 ≤ 4096) :
    Span.locate core.index (x.val + 1) = .ok ⟨core.index.toNat, inside⟩ :=
  Span.locate_eq_ok_iff.mpr ⟨inside, rfl⟩

theorem exists_stored (dialect : Dialect) (inside : core.index.toNat + x.val + 1 ≤ 4096) :
    ∃ after, (∀ byte, (Instruction.store x).execute dialect byte core = .ok (.next after)) ∧
      core.Stored dialect x after := by
  let span : Span (x.val + 1) := ⟨core.index.toNat, inside⟩
  refine ⟨{ core with
    memory := core.memory.write span (core.registersTo x)
    index := core.indexAfter dialect (x.val + 1)
    pc := core.pc + 2 }, fun byte => ?_, ?_, fun address outside => ?_, ?_, rfl⟩
  · rw [Instruction.execute, store, locate_of_inside inside]
    rfl
  · exact core.memory.holdsBytes_write span _
  · exact getElem?_overwrite_of_outside _ (by simpa using outside)
  · exact toNat_indexAfter dialect (x.val + 1) core

theorem exists_restored (dialect : Dialect) (inside : core.index.toNat + x.val + 1 ≤ 4096) :
    ∃ after, (∀ byte, (Instruction.restore x).execute dialect byte core = .ok (.next after)) ∧
      core.Restored dialect x after := by
  let span : Span (x.val + 1) := ⟨core.index.toNat, inside⟩
  let after : Core := { core with
    registers := overwrite core.registers 0 (core.memory.read span).toList
    index := core.indexAfter dialect (x.val + 1)
    pc := core.pc + 2 }
  have get (r : Register) : after.get r =
      if le : r.val < x.val + 1 then (core.memory.read span)[r.val] else core.get r := by
    refine (getElem_overwrite core.registers 0 _ r.val r.isLt).trans ?_
    simp only [Nat.zero_le, true_and, Nat.sub_zero, Vector.length_toList, Vector.getElem_toList]
    rfl
  refine ⟨after, fun byte => ?_, ?_, fun r above => ?_, ?_, rfl⟩
  · rw [Instruction.execute, restore, locate_of_inside inside]
    rfl
  · have read : after.registersTo x = core.memory.read span := by
      refine Vector.ext fun k lt => ?_
      rw [registersTo, Vector.getElem_ofFn, get, dif_pos lt]
    rw [read]
    exact core.memory.holdsBytes_read span
  · rw [get, dif_neg (Nat.not_lt_of_le above)]
  · exact toNat_indexAfter dialect (x.val + 1) core

/-- A transfer whose bytes lie in memory runs, whatever the random byte, and moves the index. -/
theorem exists_transferred {transfer : Instruction} (dialect : Dialect)
    (transfers : transfer = .store x ∨ transfer = .restore x)
    (inside : core.index.toNat + x.val + 1 ≤ 4096) :
    ∃ after, (∀ byte, transfer.execute dialect byte core = .ok (.next after)) ∧
      after.index.toNat = dialect.indexBehind core.index.toNat (x.val + 1) := by
  rcases transfers with rfl | rfl
  · exact (exists_stored dialect inside).imp fun _ stored => ⟨stored.1, stored.2.index⟩
  · exact (exists_restored dialect inside).imp fun _ restored => ⟨restored.1, restored.2.index⟩

/-- A transfer reaches over the bytes that it copies, and runs exactly if they lie in memory. -/
theorem transfer_ran_iff {transfer : Instruction}
    (transfers : transfer = .store x ∨ transfer = .restore x) :
    (∃ after, transfer.execute dialect byte core = .ok (.next after)) ↔
      core.index.toNat + x.val + 1 ≤ 4096 := by
  constructor
  · rintro ⟨after, ran⟩
    refine (writeSet_of_execute ran).inside (x.val + 1) ?_
    rcases transfers with rfl | rfl <;> rfl
  · intro inside
    exact (exists_transferred dialect transfers inside).imp fun _ transferred => transferred.1 byte

theorem stored_of_ran (ran : (Instruction.store x).execute dialect byte core = .ok (.next after)) :
    core.Stored dialect x after := by
  have inside := (transfer_ran_iff (Or.inl rfl)).mp ⟨after, ran⟩
  obtain ⟨other, ran', stored⟩ := exists_stored dialect inside
  rw [ran'] at ran
  cases ran
  exact stored

theorem restored_of_ran
    (ran : (Instruction.restore x).execute dialect byte core = .ok (.next after)) :
    core.Restored dialect x after := by
  have inside := (transfer_ran_iff (Or.inr rfl)).mp ⟨after, ran⟩
  obtain ⟨other, ran', restored⟩ := exists_restored dialect inside
  rw [ran'] at ran
  cases ran
  exact restored

variable {stored restored : Core}

/-- What was stored is restored from the same place, if nothing has written over it. -/
theorem Stored.get_of_restored (kept : core.Stored dialect x stored)
    (place : other.index = core.index)
    (same : ∀ r ≤ x, other.memory[core.index.toNat + r.val]?
      = stored.memory[core.index.toNat + r.val]?)
    (back : other.Restored dialect x after) {r : Register} (le : r ≤ x) :
    after.get r = core.get r := by
  have holds : other.memory.HoldsBytes core.index.toNat (core.registersTo x).toList := by
    refine kept.bytes.congr fun k inside => ?_
    rw [Vector.length_toList] at inside
    exact same ⟨k, by omega⟩ (Nat.le_of_lt_succ inside)
  have holds' := back.bytes
  rw [place] at holds'
  exact get_of_registersTo (holds.unique holds' (by simp)) le

/-- What was restored is stored again where it came from, and so changes nothing there. -/
theorem Restored.memory_of_stored (taken : core.Restored dialect x restored)
    (place : other.index = core.index) (memory : other.memory = core.memory)
    (same : ∀ r ≤ x, other.get r = restored.get r) (back : other.Stored dialect x after) :
    after.memory = core.memory := by
  have holds := taken.bytes
  rw [← registersTo_of_get same] at holds
  have holds' := back.bytes
  have elsewhere := back.elsewhere
  rw [place] at holds' elsewhere
  rw [memory] at elsewhere
  refine holds.ext holds' fun address outside => elsewhere address ?_
  rwa [Vector.length_toList] at outside

/-- Storing and restoring the registers up to `x` run on the same cores, which are those whose
index is followed by as many bytes of memory. A store copies the registers to these bytes; if any
other core has the index of the first one and still has these bytes, whatever its registers hold,
restoring them gives it the registers that were stored, and changes no register above `x`. The
other way round, storing registers where they were restored from leaves memory as it was. The
index moves behind the bytes, around the end of memory, or it stays, as the dialect has it. -/
theorem transfers_round_trip (dialect : Dialect) (core : Core) (x : Register) :
    (∀ transfer, transfer = Instruction.store x ∨ transfer = .restore x → ∀ byte,
      (∃ after, transfer.execute dialect byte core = .ok (.next after)) ↔
        core.index.toNat + x.val + 1 ≤ 4096) ∧
    (core.index.toNat + x.val + 1 ≤ 4096 →
      (∃ stored,
        (∀ byte, (Instruction.store x).execute dialect byte core = .ok (.next stored)) ∧
        core.Stored dialect x stored ∧
        ∀ other : Core, other.index = core.index →
          (∀ r ≤ x, other.memory[core.index.toNat + r.val]?
            = stored.memory[core.index.toNat + r.val]?) →
          ∃ after,
            (∀ byte, (Instruction.restore x).execute dialect byte other = .ok (.next after)) ∧
            other.Restored dialect x after ∧ ∀ r ≤ x, after.get r = core.get r) ∧
      ∃ restored,
        (∀ byte, (Instruction.restore x).execute dialect byte core = .ok (.next restored)) ∧
        core.Restored dialect x restored ∧
        ∀ other : Core, other.index = core.index → other.memory = core.memory →
          (∀ r ≤ x, other.get r = restored.get r) →
          ∃ after,
            (∀ byte, (Instruction.store x).execute dialect byte other = .ok (.next after)) ∧
            other.Stored dialect x after ∧ after.memory = core.memory) := by
  refine ⟨fun transfer transfers byte => transfer_ran_iff transfers, fun inside => ⟨?_, ?_⟩⟩
  · obtain ⟨stored, ran, kept⟩ := exists_stored dialect inside
    refine ⟨stored, ran, kept, fun other place same => ?_⟩
    have inside' : other.index.toNat + x.val + 1 ≤ 4096 := by rw [place]; exact inside
    obtain ⟨after, ran', back⟩ := exists_restored dialect inside'
    exact ⟨after, ran', back, fun r le => kept.get_of_restored place same back le⟩
  · obtain ⟨restored, ran, taken⟩ := exists_restored dialect inside
    refine ⟨restored, ran, taken, fun other place memory same => ?_⟩
    have inside' : other.index.toNat + x.val + 1 ≤ 4096 := by rw [place]; exact inside
    obtain ⟨after, ran', back⟩ := exists_stored dialect inside'
    exact ⟨after, ran', back, taken.memory_of_stored place memory same back⟩

/-- All registers stored in the last bytes of memory, where the index wraps around to zero, and
restored from there into registers that were cleared. -/
theorem transfers_round_trip_at_end :
    let core : Core := { Core.fresh with
      index := 0xFF0
      registers := Vector.ofFn fun r => UInt8.ofNat (0xA0 + r.val) }
    core.index.toNat + 0xF + 1 ≤ 4096 ∧ ∃ stored : Core, stored.index = 0 ∧
      stored.memory[0xFFF]? = some 0xAF ∧ stored.memory[0]? = core.memory[0]? ∧
      ∃ after, (∀ byte, (Instruction.restore 0xF).execute .cosmacVip byte
          { stored with index := 0xFF0, registers := Core.fresh.registers }
            = .ok (.next after)) ∧
        after.get 0x0 = 0xA0 ∧ after.get 0xF = 0xAF ∧ after.index = 0 := by
  intro core
  have inside : core.index.toNat + (0xF : Register).val + 1 ≤ 4096 := by decide
  obtain ⟨stored, -, kept, back⟩ := ((transfers_round_trip .cosmacVip core 0xF).2 inside).1
  obtain ⟨after, ran, taken, same⟩ := back
    { stored with index := 0xFF0, registers := Core.fresh.registers } rfl fun _ _ => rfl
  have wrapped : Dialect.cosmacVip.indexBehind 0xFF0 16 = 0 := by decide
  refine ⟨inside, stored, UInt16.toNat_inj.mp (kept.index.trans wrapped), ?_,
    kept.elsewhere 0 (Or.inl (by decide)), after, ran, ?_, ?_,
    UInt16.toNat_inj.mp (taken.index.trans wrapped)⟩
  · exact (kept.bytes 15 (by decide)).trans (getElem?_registersTo (r := 15) (by decide) core)
  · exact same 0x0 (by decide)
  · exact same 0xF (by decide)

end Core

end ChipEight
