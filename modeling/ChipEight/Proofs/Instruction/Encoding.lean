import ChipEight.Proofs.Instruction.Form
/-!
# Canonical words

Each instruction has one canonical word, with its operands in their own nibbles. Decoding takes it
back to the instruction, except that two routines of the host machine are shadowed by instructions
with words of their own; and it takes any other word to an instruction only if clearing the nibble
that decoding ignores makes the word canonical.

## Main definitions

- `Word.canonical` — a word with the nibble cleared that decoding ignores
- `Instruction.Unshadowed` — the instructions that decoding can give

## Main statements

- `Instruction.decode?_encode` — decoding inverts encoding
- `Instruction.encode_of_decode?` — encoding inverts decoding, up to the ignored nibble
- `Instruction.decode?_eq_some_iff` — both, as one equivalence
- `Instruction.decode?_congr_iff` — the words that stand for one instruction
- `Instruction.decode?_eq_none_iff_encode_ne` — the words that stand for none
-/

namespace ChipEight

namespace Word

section Fields

variable (group x y n : Nibble) (byte : Byte) (target : Address)

@[simp] theorem group_ofNibbles : (ofNibbles group x y n).group = group := by
  apply Fin.ext
  simp only [Word.group, toNat_ofNibbles]
  omega

@[simp] theorem x_ofNibbles : (ofNibbles group x y n).x = x := by
  apply Fin.ext
  simp only [Word.x, toNat_ofNibbles]
  omega

@[simp] theorem y_ofNibbles : (ofNibbles group x y n).y = y := by
  apply Fin.ext
  simp only [Word.y, toNat_ofNibbles]
  omega

@[simp] theorem n_ofNibbles : (ofNibbles group x y n).n = n := by
  apply Fin.ext
  simp only [Word.n, toNat_ofNibbles]
  omega

@[simp] theorem group_ofByteOperand : (ofByteOperand group x byte).group = group := by
  have := byte.toNat_lt
  apply Fin.ext
  simp only [Word.group, toNat_ofByteOperand]
  omega

@[simp] theorem x_ofByteOperand : (ofByteOperand group x byte).x = x := by
  have := byte.toNat_lt
  apply Fin.ext
  simp only [Word.x, toNat_ofByteOperand]
  omega

@[simp] theorem lowByte_ofByteOperand : (ofByteOperand group x byte).lowByte = byte := by
  have := byte.toNat_lt
  apply UInt8.toNat_inj.mp
  rw [toNat_lowByte, toNat_ofByteOperand]
  omega

@[simp] theorem group_ofAddressOperand : (ofAddressOperand group target).group = group := by
  apply Fin.ext
  simp only [Word.group, toNat_ofAddressOperand]
  omega

@[simp] theorem address_ofAddressOperand : (ofAddressOperand group target).address = target := by
  apply Fin.ext
  simp only [Word.address, toNat_ofAddressOperand]
  omega

end Fields

variable {w v : Word} {group : Nibble}

theorem ofNibbles_of_group (h : w.group = group) : ofNibbles group w.x w.y w.n = w := by
  apply UInt16.toNat_inj.mp
  rw [toNat_ofNibbles, ← h, ← toNat_eq_nibbles]

theorem ofByteOperand_of_group {byte : Byte} (h : w.group = group)
    (low : w.lowByte.toNat = byte.toNat) : ofByteOperand group w.x byte = w := by
  apply UInt16.toNat_inj.mp
  rw [toNat_ofByteOperand, ← low, toNat_lowByte_eq_nibbles, ← h, ← Nat.add_assoc,
    ← toNat_eq_nibbles]

theorem ofAddressOperand_of_group (h : w.group = group) : ofAddressOperand group w.address = w := by
  apply UInt16.toNat_inj.mp
  simp only [toNat_ofAddressOperand, ← h, Word.group, Word.address]
  omega

/-- The word with its last nibble cleared, if decoding ignores this nibble. -/
def canonical (w : Word) : Word :=
  if w.group = 0x5 ∨ w.group = 0x9 then .ofNibbles w.group w.x w.y 0x0 else w

@[simp] theorem group_canonical (w : Word) : w.canonical.group = w.group := by
  rw [canonical]
  split
  · exact group_ofNibbles ..
  · rfl

theorem canonical_of_ignored (ignored : w.group = 0x5 ∨ w.group = 0x9) :
    w.canonical = .ofNibbles w.group w.x w.y 0x0 :=
  if_pos ignored

theorem canonical_of_read (read : ¬ (w.group = 0x5 ∨ w.group = 0x9)) : w.canonical = w :=
  if_neg read

theorem canonical_inj :
    v.canonical = w.canonical ↔
      v = w ∨ ((w.group = 0x5 ∨ w.group = 0x9) ∧ v.group = w.group ∧ v.x = w.x ∧ v.y = w.y) := by
  constructor
  · intro same
    have group : v.group = w.group := by rw [← v.group_canonical, same, w.group_canonical]
    by_cases ignored : w.group = 0x5 ∨ w.group = 0x9
    · have ignored' : v.group = 0x5 ∨ v.group = 0x9 := by rw [group]; exact ignored
      rw [canonical_of_ignored ignored, canonical_of_ignored ignored'] at same
      refine Or.inr ⟨ignored, group, ?_, ?_⟩
      · simpa using congrArg Word.x same
      · simpa using congrArg Word.y same
    · have read : ¬ (v.group = 0x5 ∨ v.group = 0x9) := by rw [group]; exact ignored
      rw [canonical_of_read ignored, canonical_of_read read] at same
      exact Or.inl same
  · rintro (rfl | ⟨ignored, group, x, y⟩)
    · rfl
    · have ignored' : v.group = 0x5 ∨ v.group = 0x9 := by rw [group]; exact ignored
      rw [canonical_of_ignored ignored, canonical_of_ignored ignored', group, x, y]

end Word

namespace Instruction

variable {w v : Word} {instruction : Instruction}

/-- The instructions that decoding can give. The other two are routines whose words are those of
`clear` and `ret`. -/
def Unshadowed (instruction : Instruction) : Prop :=
  instruction ≠ .sys 0x0E0 ∧ instruction ≠ .sys 0x0EE

/-- The word of a routine is that of `clear` or of `ret` only if its address is. -/
theorem ofZeroFamily_ofAddressOperand {target : Address} (unshadowed : (sys target).Unshadowed) :
    ofZeroFamily (.ofAddressOperand 0x0 target) = .sys target := by
  have other (address : Address) (ne : sys target ≠ .sys address) :
      Word.ofAddressOperand 0x0 target ≠ .ofAddressOperand 0x0 address := by
    intro same
    have same := congrArg Word.address same
    rw [Word.address_ofAddressOperand, Word.address_ofAddressOperand] at same
    exact ne (congrArg sys same)
  have clear : Word.ofAddressOperand 0x0 target ≠ 0x00E0 := other 0x0E0 unshadowed.1
  have ret : Word.ofAddressOperand 0x0 target ≠ 0x00EE := other 0x0EE unshadowed.2
  rw [ofZeroFamily, if_neg clear, if_neg ret, Word.address_ofAddressOperand]

theorem decode?_encode (unshadowed : instruction.Unshadowed) :
    decode? instruction.encode = some instruction := by
  cases instruction with
  | clear | ret => rfl
  | sys target =>
    rw [encode, decode?, Word.group_ofAddressOperand]
    exact congrArg some (ofZeroFamily_ofAddressOperand unshadowed)
  | jump target | call target | setIndex target | jumpOffset target =>
    rw [encode, decode?, Word.group_ofAddressOperand, Word.address_ofAddressOperand]
    rfl
  | skipEq x y | skipNe x y | draw x y height =>
    rw [encode, decode?, Word.group_ofNibbles, Word.x_ofNibbles, Word.y_ofNibbles,
      Word.n_ofNibbles]
    rfl
  | operate op x y =>
    rw [encode, decode?, Word.group_ofNibbles, Word.x_ofNibbles, Word.y_ofNibbles,
      Word.n_ofNibbles, Operation.ofSelector?_selector]
    rfl
  | _ =>
    -- a register and a byte, which is an operand or selects the instruction
    rw [encode, decode?, Word.group_ofByteOperand, Word.x_ofByteOperand,
      Word.lowByte_ofByteOperand]
    rfl

theorem encode_ofZeroFamily (group : w.group = 0x0) : (ofZeroFamily w).encode = w := by
  unfold ofZeroFamily
  split
  case isTrue clear => exact clear.symm
  case isFalse _ =>
    split
    case isTrue ret => exact ret.symm
    case isFalse _ => exact Word.ofAddressOperand_of_group group

theorem encode_of_ofKeyFamily? (group : w.group = 0xE)
    (found : ofKeyFamily? w.x w.lowByte = some instruction) : instruction.encode = w := by
  unfold ofKeyFamily? at found
  split at found
  case h_3 => cases found
  all_goals
    next low =>
      cases found
      exact Word.ofByteOperand_of_group group low

theorem encode_of_ofRegisterFamily? (group : w.group = 0xF)
    (found : ofRegisterFamily? w.x w.lowByte = some instruction) : instruction.encode = w := by
  unfold ofRegisterFamily? at found
  split at found
  case h_10 => cases found
  all_goals
    next low =>
      cases found
      exact Word.ofByteOperand_of_group group low

/-- The instruction that a word stands for has this word as its canonical word, up to the nibble
that decoding ignores. -/
theorem encode_of_decode? (decoded : decode? w = some instruction) :
    instruction.encode = w.canonical := by
  have group : w.group = instruction.form.group := (fits_of_decode? decoded).group
  by_cases ignored : w.group = 0x5 ∨ w.group = 0x9
  · rw [Word.canonical_of_ignored ignored]
    rcases ignored with group | group
    all_goals
      rw [decode?, group] at decoded
      cases decoded
      rw [group]
      rfl
  · rw [Word.canonical_of_read ignored]
    cases instruction with
    | clear | ret | sys target =>
      rw [decode?, group] at decoded
      have zero : ofZeroFamily w = _ := Option.some.inj decoded
      rw [← zero]
      exact encode_ofZeroFamily group
    | skipEq x y => exact absurd (Or.inl group) ignored
    | skipNe x y => exact absurd (Or.inr group) ignored
    | jump target | call target | setIndex target | jumpOffset target =>
      rw [decode?, group] at decoded
      cases decoded
      exact Word.ofAddressOperand_of_group group
    | skipEqByte x byte | skipNeByte x byte | loadByte x byte | addByte x byte | random x byte =>
      rw [decode?, group] at decoded
      cases decoded
      exact Word.ofByteOperand_of_group group rfl
    | draw x y height =>
      rw [decode?, group] at decoded
      cases decoded
      exact Word.ofNibbles_of_group group
    | operate op x y =>
      rw [decode?, group] at decoded
      obtain ⟨op, found, same⟩ := Option.map_eq_some_iff.mp decoded
      cases same
      rw [encode, ← Operation.selector_of_ofSelector? found]
      exact Word.ofNibbles_of_group group
    | skipKey x | skipNoKey x =>
      rw [decode?_of_keyFamily group] at decoded
      exact encode_of_ofKeyFamily? group decoded
    | _ =>
      rw [decode?_of_registerFamily group] at decoded
      exact encode_of_ofRegisterFamily? group decoded

theorem decode?_canonical (w : Word) : decode? w.canonical = decode? w := by
  by_cases ignored : w.group = 0x5 ∨ w.group = 0x9
  · rw [Word.canonical_of_ignored ignored, decode?, decode?, Word.group_ofNibbles,
      Word.x_ofNibbles, Word.y_ofNibbles]
    rcases ignored with group | group
    all_goals
      rw [group]
      rfl
  · rw [Word.canonical_of_read ignored]

theorem unshadowed_of_decode? (decoded : decode? w = some instruction) :
    instruction.Unshadowed := by
  have same := encode_of_decode? decoded
  rw [← decode?_canonical, ← same] at decoded
  constructor
  · rintro rfl
    exact absurd decoded (by decide)
  · rintro rfl
    exact absurd decoded (by decide)

/-- A word stands for an instruction exactly if its canonical form is the word of that
instruction. -/
theorem decode?_eq_some_iff :
    decode? w = some instruction ↔ instruction.encode = w.canonical ∧ instruction.Unshadowed := by
  constructor
  · intro decoded
    exact ⟨encode_of_decode? decoded, unshadowed_of_decode? decoded⟩
  · rintro ⟨same, unshadowed⟩
    rw [← decode?_canonical, ← same, decode?_encode unshadowed]

/-- Words that stand for one instruction differ in the nibble that decoding ignores, or not at
all. -/
theorem decode?_congr_iff (decoded : decode? w = some instruction) :
    decode? v = some instruction ↔
      v = w ∨ ((w.group = 0x5 ∨ w.group = 0x9) ∧ v.group = w.group ∧ v.x = w.x ∧ v.y = w.y) := by
  obtain ⟨same, unshadowed⟩ := decode?_eq_some_iff.mp decoded
  rw [decode?_eq_some_iff, same, ← Word.canonical_inj]
  constructor
  · rintro ⟨equal, -⟩
    exact equal.symm
  · intro equal
    exact ⟨equal.symm, unshadowed⟩

theorem isSome_decode?_encode (instruction : Instruction) :
    (decode? instruction.encode).isSome = true := by
  by_cases clear : instruction = .sys 0x0E0
  · rw [clear]
    rfl
  by_cases ret : instruction = .sys 0x0EE
  · rw [ret]
    rfl
  rw [decode?_encode ⟨clear, ret⟩]
  rfl

/-- Only a word that is no canonical one stands for no instruction, and not even that if it has a
nibble that decoding ignores. -/
theorem decode?_eq_none_iff_encode_ne :
    decode? w = none ↔
      (∀ instruction : Instruction, instruction.encode ≠ w) ∧ w.group ≠ 0x5 ∧ w.group ≠ 0x9 := by
  constructor
  · intro unknown
    refine ⟨?_, ?_, ?_⟩
    · rintro instruction rfl
      have known := isSome_decode?_encode instruction
      rw [unknown] at known
      cases known
    · intro group
      rw [decode?, group] at unknown
      cases unknown
    · intro group
      rw [decode?, group] at unknown
      cases unknown
  · rintro ⟨outside, skipEq, skipNe⟩
    cases decoded : decode? w with
    | none => rfl
    | some instruction =>
      have same := encode_of_decode? decoded
      rw [Word.canonical_of_read (not_or.mpr ⟨skipEq, skipNe⟩)] at same
      exact absurd same (outside instruction)

theorem decode_eq_ok_iff : decode w = .ok instruction ↔ decode? w = some instruction := by
  cases decoded : decode? w <;> simp [decode, decoded]

theorem decode_eq_error_iff {fault : Fault} :
    decode w = .error fault ↔ decode? w = none ∧ fault = .unknownInstruction w := by
  cases decoded : decode? w <;> simp [decode, decoded, eq_comm]

end Instruction

end ChipEight
