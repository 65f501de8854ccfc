import ChipEight.Proofs.Core.Transfer
import ChipEight.Proofs.Machine.Fault
/-!
# Decimal digits

Storing a register in decimal. The three digits stand in memory at the index, the most significant
one first, and nothing else changes but the program counter. Where memory ends before the third
digit, none of them is written.

## Main definitions

- `Byte.HasDigits` — the decimal digits of a byte
- `Core.DecimalStored` — what is left where three digits were stored

## Main statements

- `Core.exists_decimalStored`, `Core.decimal_refused` — when the digits of a register are stored
- `Core.loads_digits` — three digits that stand at the index are loaded
- `Machine.decimal_digits` — the digits of a register, stored and loaded
-/

namespace ChipEight

/-- The decimal digits of a byte. -/
structure Byte.HasDigits (value hundreds tens ones : Byte) : Prop where
  hundreds_le : hundreds.toNat ≤ 9
  tens_le : tens.toNat ≤ 9
  ones_le : ones.toNat ≤ 9
  sum : 100 * hundreds.toNat + 10 * tens.toNat + ones.toNat = value.toNat

theorem Byte.hasDigits_digits (value : Byte) :
    ∃ hundreds tens ones, value.digits = #v[hundreds, tens, ones] ∧
      value.HasDigits hundreds tens ones := by
  have lt := value.toNat_lt
  have hundreds : (value / 100).toNat = value.toNat / 100 := UInt8.toNat_div value 100
  have tens : (value / 10 % 10).toNat = value.toNat / 10 % 10 := by
    rw [UInt8.toNat_mod, UInt8.toNat_div]
    rfl
  have ones : (value % 10).toNat = value.toNat % 10 := UInt8.toNat_mod value 10
  refine ⟨value / 100, value / 10 % 10, value % 10, rfl, ?_, ?_, ?_, ?_⟩ <;> omega

namespace Core

/-- What is left where three digits were stored. -/
structure DecimalStored (core : Core) (hundreds tens ones : Byte) (after : Core) : Prop where
  bytes : after.memory.HoldsBytes core.index.toNat [hundreds, tens, ones]
  elsewhere : ∀ address, address < core.index.toNat ∨ core.index.toNat + 3 ≤ address →
    after.memory[address]? = core.memory[address]?
  /-- No other part of the core has changed, and so the index has not. -/
  rest : after = { core with memory := after.memory, pc := core.pc + 2 }

variable {core : Core} {hundreds tens ones : Byte}

/-- Where three bytes of memory are left, the digits of a register are stored. What is remembered
as fetched has no part in it. -/
theorem exists_decimalStored (x : Register) (inside : core.index.toNat ≤ 0xFFD) :
    ∃ hundreds tens ones after, (core.get x).HasDigits hundreds tens ones ∧
      (∀ word dialect byte, (Instruction.decimal x).execute dialect byte
        { core with opcode := word } = .ok (.next { after with opcode := word })) ∧
      core.DecimalStored hundreds tens ones after := by
  have fits : core.index.toNat + 3 ≤ Memory.size := Nat.add_le_add_right inside 3
  let span : Span 3 := ⟨core.index.toNat, fits⟩
  obtain ⟨hundreds, tens, ones, digits, has⟩ := (core.get x).hasDigits_digits
  refine ⟨hundreds, tens, ones, { core with
    memory := core.memory.write span #v[hundreds, tens, ones]
    pc := core.pc + 2 }, has, fun word dialect byte => ?_, ?_, fun address outside => ?_, rfl⟩
  · have located : Span.locate core.index 3 = .ok span := Span.locate_eq_ok_iff.mpr ⟨fits, rfl⟩
    rw [Instruction.execute, decimal, located, ← digits]
    rfl
  · exact core.memory.holdsBytes_write span _
  · exact getElem?_overwrite_of_outside _ (by simpa using outside)

/-- Where they are not left, nothing is stored, and the fault names the first address outside. -/
theorem decimal_refused (x : Register) (outside : 0xFFE ≤ core.index.toNat) (dialect : Dialect)
    (byte : Byte) :
    (Instruction.decimal x).execute dialect byte core
      = .error (.addressOutOfRange (max 4096 core.index)) :=
  execute_of_refusal (.outside rfl (show 4096 < core.index.toNat + 3 by omega))

/-- Three bytes that stand at the index are loaded into the first three registers. -/
theorem loads_digits (inside : core.index.toNat ≤ 0xFFD)
    (holds : core.memory.HoldsBytes core.index.toNat [hundreds, tens, ones]) (dialect : Dialect) :
    ∃ loaded, (∀ byte, (Instruction.restore 2).execute dialect byte core = .ok (.next loaded)) ∧
      core.Restored dialect 2 loaded ∧
      loaded.get 0 = hundreds ∧ loaded.get 1 = tens ∧ loaded.get 2 = ones := by
  have fits : core.index.toNat + (2 : Register).val + 1 ≤ 4096 := Nat.add_le_add_right inside 3
  obtain ⟨loaded, ran, restored⟩ := exists_restored dialect fits
  have same := holds.unique restored.bytes (by rw [Vector.length_toList]; rfl)
  have digit (r : Register) (le : r ≤ 2) :
      some (loaded.get r) = [hundreds, tens, ones][r.val]? := by
    rw [← same, getElem?_registersTo le]
  exact ⟨loaded, ran, restored, Option.some.inj (digit 0 (by decide)),
    Option.some.inj (digit 1 (by decide)), Option.some.inj (digit 2 (by decide))⟩

end Core

namespace Machine

/-- The digits of a register, stored and loaded.

Where the index is followed by three bytes of memory, storing a register in decimal runs in every
dialect and writes three digits there, each at most nine, that denote the value of the register; no
other byte and no other part of the core changes but the program counter. From a core with the same
index and memory the digits are then loaded into the first three registers. Where memory ends
before the third byte, storing fails and writes nothing. A machine that finds the instruction does
the same in its step, and remembers the word. -/
theorem decimal_digits :
    (∀ (core : Core) (x : Register), core.index.toNat ≤ 0xFFD →
      ∃ hundreds tens ones after, (core.get x).HasDigits hundreds tens ones ∧
        (∀ dialect byte,
          (Instruction.decimal x).execute dialect byte core = .ok (.next after)) ∧
        core.DecimalStored hundreds tens ones after ∧
        ∀ other : Core, other.index = core.index → other.memory = after.memory → ∀ dialect,
          ∃ loaded,
            (∀ byte, (Instruction.restore 2).execute dialect byte other = .ok (.next loaded)) ∧
            other.Restored dialect 2 loaded ∧
            loaded.get 0 = hundreds ∧ loaded.get 1 = tens ∧ loaded.get 2 = ones) ∧
    (∀ (core : Core) (x : Register), 0xFFE ≤ core.index.toNat → ∀ dialect byte,
      (Instruction.decimal x).execute dialect byte core
        = .error (.addressOutOfRange (max 4096 core.index))) ∧
    ∀ (machine : Machine) (word : Word), machine.core.control = .running →
      machine.core.memory.HoldsWord machine.core.pc word → word.group = 0xF →
      word.lowByte = 0x33 →
      (machine.core.index.toNat ≤ 0xFFD →
        ∃ hundreds tens ones after, (machine.core.get word.x).HasDigits hundreds tens ones ∧
          machine.core.DecimalStored hundreds tens ones after ∧
          machine.step.value = .executed (.decimal word.x) ∧
          machine.step.after = { machine with core := { after with opcode := word } }) ∧
      (0xFFE ≤ machine.core.index.toNat →
        machine.step.value = .failed (.addressOutOfRange (max 4096 machine.core.index)) ∧
        machine.step.after.core.memory = machine.core.memory) := by
  refine ⟨fun core x inside => ?_, fun core x outside => Core.decimal_refused x outside,
    fun machine word running holds group low => ⟨fun inside => ?_, fun outside => ?_⟩⟩
  · obtain ⟨hundreds, tens, ones, after, digits, ran, stored⟩ := Core.exists_decimalStored x inside
    have same : { after with opcode := core.opcode } = after := by rw [stored.rest]
    refine ⟨hundreds, tens, ones, after, digits, fun dialect byte => ?_, stored, ?_⟩
    · rw [← same]
      exact ran core.opcode dialect byte
    · intro other index memory dialect
      refine Core.loads_digits (by rw [index]; exact inside) ?_ dialect
      rw [index, memory]
      exact stored.bytes
  · have fetched := Core.fetch_eq_ok_iff_holdsWord.mpr holds
    have decoded := Instruction.decode?_eq_decimal_iff.mpr ⟨group, low, rfl⟩
    obtain ⟨hundreds, tens, ones, after, digits, ran, stored⟩ :=
      Core.exists_decimalStored word.x inside
    have turn := (Turn.executed running word _ _ fetched decoded (ran word _ _)).step_eq
    refine ⟨hundreds, tens, ones, after, digits, stored, ?_, ?_⟩
    · rw [turn]; rfl
    · rw [turn]; rfl
  · have failed := failed_of_stepFault running (.decimal word holds ⟨group, low⟩ (by omega))
    refine ⟨failed, ?_⟩
    rw [after_step_of_failed failed]

/-- The digits of 254 in the last three bytes of memory, and a machine that finds one byte less. -/
theorem decimal_digits_at_end :
    let core : Core := { Core.fresh with
      index := 0xFFD
      registers := Core.fresh.registers.set 0x7 254
      memory := overwrite Memory.fresh 0x200 [0xF7, 0x33] }
    let machine : Machine :=
      { core := { core with index := 0xFFE }, settings := {}, random := .cycle [] }
    (∃ after, (∀ dialect byte,
        (Instruction.decimal 0x7).execute dialect byte core = .ok (.next after)) ∧
      after.memory[0xFFD]? = some 2 ∧ after.memory[0xFFE]? = some 5 ∧
      after.memory[0xFFF]? = some 4) ∧
    machine.step.value = .failed (.addressOutOfRange 4096) ∧
    machine.step.after.core.memory = machine.core.memory := by
  intro core machine
  obtain ⟨inside, -, steps⟩ := decimal_digits
  constructor
  · obtain ⟨hundreds, tens, ones, after, digits, ran, stored, -⟩ := inside core 0x7 (by decide)
    have value : (core.get 0x7).toNat = 254 := by decide
    obtain ⟨_, tens_le, ones_le, sum⟩ := digits
    have first : hundreds = 2 := UInt8.toNat_inj.mp (show hundreds.toNat = 2 by omega)
    have second : tens = 5 := UInt8.toNat_inj.mp (show tens.toNat = 5 by omega)
    have third : ones = 4 := UInt8.toNat_inj.mp (show ones.toNat = 4 by omega)
    refine ⟨after, ran, ?_, ?_, ?_⟩
    · exact (stored.bytes 0 (by simp)).trans (congrArg some first)
    · exact (stored.bytes 1 (by simp)).trans (congrArg some second)
    · exact (stored.bytes 2 (by simp)).trans (congrArg some third)
  · have holds : machine.core.memory.HoldsWord machine.core.pc 0xF733 :=
      ⟨by decide, by decide +kernel⟩
    exact (steps machine 0xF733 rfl holds rfl rfl).2 (by decide)

end Machine

end ChipEight
