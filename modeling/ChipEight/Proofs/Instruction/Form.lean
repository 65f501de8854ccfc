import ChipEight.Instruction.Encoding
/-!
# Forms of instruction words

The form of an instruction fixes some of the four nibbles of its words and leaves a gap
wherever an operand may stand. A word stands for an instruction exactly if it fits one of
these forms, of which there are thirty-five.

## Main definitions

- `Form`, `Form.Fits` — a form and the words that fit it
- `Instruction.form` — the form of each instruction

## Main statements

- `Instruction.fits_of_decode?`, `Instruction.isSome_decode?_of_fits` — decoding against
  the forms
- `Instruction.decode?_eq_none_iff` — the words that stand for no instruction
- `Instruction.decode?_eq_ret_iff`, `Instruction.decode?_eq_call_iff`,
  `Instruction.decode?_eq_draw_iff`, `Instruction.decode?_eq_decimal_iff`,
  `Instruction.decode?_eq_store_iff`, `Instruction.decode?_eq_restore_iff`,
  `Instruction.decode?_eq_awaitKey_iff` — the words of the instructions that can fail or wait
- `Instruction.decode?_eq_pointGlyph_iff` — those of the instruction that points to a glyph
-/

namespace ChipEight

namespace Word

theorem toNat_eq_nibbles (w : Word) :
    w.toNat = w.group.val * 4096 + w.x.val * 256 + w.y.val * 16 + w.n.val := by
  have := w.toNat_lt
  simp only [group, x, y, n]
  omega

theorem toNat_lowByte_eq_nibbles (w : Word) : w.lowByte.toNat = w.y.val * 16 + w.n.val := by
  rw [toNat_lowByte]
  simp only [y, n]
  omega

end Word

/-- A form of instruction words: each nibble behind the first is fixed, or it is `none`
where an operand may stand. -/
structure Form where
  group : Nibble
  x : Option Nibble := none
  y : Option Nibble := none
  n : Option Nibble := none
  deriving DecidableEq, Repr

/-- The fixed nibbles of the form stand in the word. -/
structure Form.Fits (form : Form) (w : Word) : Prop where
  group : w.group = form.group
  x : ∀ k ∈ form.x, w.x = k
  y : ∀ k ∈ form.y, w.y = k
  n : ∀ k ∈ form.n, w.n = k

namespace Form

variable {group y n : Nibble} {w : Word}

theorem fits_group_iff : Fits ⟨group, none, none, none⟩ w ↔ w.group = group := by
  constructor
  · intro fits
    exact fits.group
  · intro h
    exact ⟨h, by simp, by simp, by simp⟩

theorem fits_last_iff : Fits ⟨group, none, none, some n⟩ w ↔ w.group = group ∧ w.n = n := by
  constructor
  · intro fits
    exact ⟨fits.group, fits.n n rfl⟩
  · rintro ⟨h, hn⟩
    exact ⟨h, by simp, by simp, by simp [hn]⟩

/-- A form that fixes the last two nibbles fixes the low byte. -/
theorem fits_lowByte_iff :
    Fits ⟨group, none, some y, some n⟩ w ↔
      w.group = group ∧ w.lowByte.toNat = y.val * 16 + n.val := by
  have low := w.toNat_lowByte_eq_nibbles
  constructor
  · intro fits
    rw [low, fits.y y rfl, fits.n n rfl]
    exact ⟨fits.group, rfl⟩
  · rintro ⟨h, hlow⟩
    rw [low] at hlow
    have hy : w.y = y := Fin.ext (by omega)
    have hn : w.n = n := Fin.ext (by omega)
    exact ⟨h, by simp, by simp [hy], by simp [hn]⟩

end Form

namespace Operation

theorem selector_of_ofSelector? {n : Nibble} {op : Operation}
    (found : ofSelector? n = some op) : n = op.selector := by
  revert n op
  decide

end Operation

namespace Instruction

/-- The nibbles that the words of an instruction have in common. -/
def form : Instruction → Form
  | .clear => ⟨0x0, some 0x0, some 0xE, some 0x0⟩
  | .ret => ⟨0x0, some 0x0, some 0xE, some 0xE⟩
  | .sys _ => ⟨0x0, none, none, none⟩
  | .jump _ => ⟨0x1, none, none, none⟩
  | .call _ => ⟨0x2, none, none, none⟩
  | .skipEqByte _ _ => ⟨0x3, none, none, none⟩
  | .skipNeByte _ _ => ⟨0x4, none, none, none⟩
  | .skipEq _ _ => ⟨0x5, none, none, none⟩
  | .loadByte _ _ => ⟨0x6, none, none, none⟩
  | .addByte _ _ => ⟨0x7, none, none, none⟩
  -- nine forms, one for each operation
  | .operate op _ _ => ⟨0x8, none, none, some op.selector⟩
  | .skipNe _ _ => ⟨0x9, none, none, none⟩
  | .setIndex _ => ⟨0xA, none, none, none⟩
  | .jumpOffset _ => ⟨0xB, none, none, none⟩
  | .random _ _ => ⟨0xC, none, none, none⟩
  | .draw _ _ _ => ⟨0xD, none, none, none⟩
  | .skipKey _ => ⟨0xE, none, some 0x9, some 0xE⟩
  | .skipNoKey _ => ⟨0xE, none, some 0xA, some 0x1⟩
  | .getDelay _ => ⟨0xF, none, some 0x0, some 0x7⟩
  | .awaitKey _ => ⟨0xF, none, some 0x0, some 0xA⟩
  | .setDelay _ => ⟨0xF, none, some 0x1, some 0x5⟩
  | .setSound _ => ⟨0xF, none, some 0x1, some 0x8⟩
  | .addIndex _ => ⟨0xF, none, some 0x1, some 0xE⟩
  | .pointGlyph _ => ⟨0xF, none, some 0x2, some 0x9⟩
  | .decimal _ => ⟨0xF, none, some 0x3, some 0x3⟩
  | .store _ => ⟨0xF, none, some 0x5, some 0x5⟩
  | .restore _ => ⟨0xF, none, some 0x6, some 0x5⟩

variable {w : Word} {instruction : Instruction}

theorem fits_ofZeroFamily (group : w.group = 0x0) : (ofZeroFamily w).form.Fits w := by
  unfold ofZeroFamily
  split
  case isTrue h =>
    subst h
    constructor <;> decide
  case isFalse _ =>
    split
    case isTrue h =>
      subst h
      constructor <;> decide
    case isFalse _ => exact Form.fits_group_iff.mpr group

theorem fits_of_ofKeyFamily? (group : w.group = 0xE)
    (found : ofKeyFamily? w.x w.lowByte = some instruction) : instruction.form.Fits w := by
  unfold ofKeyFamily? at found
  split at found
  case h_3 => cases found
  all_goals
    next low =>
      cases found
      exact Form.fits_lowByte_iff.mpr ⟨group, low⟩

theorem fits_of_ofRegisterFamily? (group : w.group = 0xF)
    (found : ofRegisterFamily? w.x w.lowByte = some instruction) : instruction.form.Fits w := by
  unfold ofRegisterFamily? at found
  split at found
  case h_10 => cases found
  all_goals
    next low =>
      cases found
      exact Form.fits_lowByte_iff.mpr ⟨group, low⟩

/-- A word that stands for an instruction fits the form of that instruction. -/
theorem fits_of_decode? (decoded : decode? w = some instruction) : instruction.form.Fits w := by
  unfold decode? at decoded
  split at decoded
  case h_1 hgroup =>
    cases decoded
    exact fits_ofZeroFamily (Fin.ext hgroup)
  case h_9 hgroup =>
    obtain ⟨op, found, rfl⟩ := Option.map_eq_some_iff.mp decoded
    exact Form.fits_last_iff.mpr ⟨Fin.ext hgroup, Operation.selector_of_ofSelector? found⟩
  case h_15 hgroup => exact fits_of_ofKeyFamily? (Fin.ext hgroup) decoded
  case h_16 h0 h1 h2 h3 h4 h5 h6 h7 h8 h9 hA hB hC hD hE =>
    -- all other groups were split off
    have group : w.group = 0xF := by
      have := w.group.isLt
      apply Fin.ext
      show w.group.val = 15
      grind
    exact fits_of_ofRegisterFamily? group decoded
  all_goals
    next hgroup =>
      cases decoded
      exact Form.fits_group_iff.mpr (Fin.ext hgroup)

theorem decode?_of_keyFamily (group : w.group = 0xE) :
    decode? w = ofKeyFamily? w.x w.lowByte := by
  rw [decode?, group]
  rfl

theorem decode?_of_registerFamily (group : w.group = 0xF) :
    decode? w = ofRegisterFamily? w.x w.lowByte := by
  rw [decode?, group]
  rfl

/-- A word that fits the form of some instruction stands for an instruction. -/
theorem isSome_decode?_of_fits (fits : instruction.form.Fits w) : (decode? w).isSome = true := by
  have group : w.group = instruction.form.group := fits.group
  cases instruction with
  | operate op x y =>
    have selector : w.n = op.selector := (Form.fits_last_iff.mp fits).2
    rw [decode?, group]
    show ((Operation.ofSelector? w.n).map _).isSome = true
    rw [selector, Operation.ofSelector?_selector]
    rfl
  | skipKey x | skipNoKey x =>
    have low := (Form.fits_lowByte_iff.mp fits).2
    rw [decode?_of_keyFamily group, ofKeyFamily?, low]
    rfl
  | getDelay x | awaitKey x | setDelay x | setSound x | addIndex x | pointGlyph x
  | decimal x | store x | restore x =>
    have low := (Form.fits_lowByte_iff.mp fits).2
    rw [decode?_of_registerFamily group, ofRegisterFamily?, low]
    rfl
  | _ =>
    -- the first nibble alone selects the instruction
    rw [decode?, group]
    rfl

/-- A word stands for no instruction exactly if it fits none of the forms. -/
theorem decode?_eq_none_iff :
    decode? w = none ↔ ∀ instruction : Instruction, ¬ instruction.form.Fits w := by
  constructor
  · intro unknown instruction fits
    have known := isSome_decode?_of_fits fits
    simp [unknown] at known
  · intro misfit
    cases decoded : decode? w with
    | none => rfl
    | some instruction => exact absurd (fits_of_decode? decoded) (misfit instruction)

theorem decode?_eq_ret_iff : decode? w = some .ret ↔ w = 0x00EE := by
  constructor
  · intro decoded
    have fits := fits_of_decode? decoded
    have nibbles := w.toNat_eq_nibbles
    rw [fits.group, fits.x 0x0 rfl, fits.y 0xE rfl, fits.n 0xE rfl] at nibbles
    exact UInt16.toNat_inj.mp nibbles
  · rintro rfl
    rfl

theorem decode?_eq_call_iff {target : Address} :
    decode? w = some (.call target) ↔ w.group = 0x2 ∧ w.address = target := by
  constructor
  · intro decoded
    have group := (fits_of_decode? decoded).group
    rw [decode?, group] at decoded
    cases decoded
    exact ⟨group, rfl⟩
  · rintro ⟨group, rfl⟩
    rw [decode?, group]
    rfl

theorem decode?_eq_draw_iff {x y : Register} {height : Nibble} :
    decode? w = some (.draw x y height) ↔
      w.group = 0xD ∧ w.x = x ∧ w.y = y ∧ w.n = height := by
  constructor
  · intro decoded
    have group := (fits_of_decode? decoded).group
    rw [decode?, group] at decoded
    cases decoded
    exact ⟨group, rfl, rfl, rfl⟩
  · rintro ⟨group, rfl, rfl, rfl⟩
    rw [decode?, group]
    rfl

/-- An instruction of the family `F___` is selected by the low byte of its words and
takes its register from the second nibble. -/
theorem decode?_eq_ofRegisterFamily_iff {kind : Register → Instruction} {low : Byte}
    {y n : Nibble} (injective : Function.Injective kind)
    (selects : ∀ x, ofRegisterFamily? x low = some (kind x))
    (hform : ∀ x, (kind x).form = ⟨0xF, none, some y, some n⟩)
    (hlow : low.toNat = y.val * 16 + n.val) {x : Register} :
    decode? w = some (kind x) ↔ w.group = 0xF ∧ w.lowByte = low ∧ w.x = x := by
  constructor
  · intro decoded
    have fits := fits_of_decode? decoded
    rw [hform] at fits
    obtain ⟨group, selector⟩ := Form.fits_lowByte_iff.mp fits
    have same : w.lowByte = low := UInt8.toNat_inj.mp (selector.trans hlow.symm)
    rw [decode?_of_registerFamily group, same, selects] at decoded
    exact ⟨group, same, injective (Option.some.inj decoded)⟩
  · rintro ⟨group, same, rfl⟩
    rw [decode?_of_registerFamily group, same, selects]

theorem decode?_eq_decimal_iff {x : Register} :
    decode? w = some (.decimal x) ↔ w.group = 0xF ∧ w.lowByte = 0x33 ∧ w.x = x :=
  decode?_eq_ofRegisterFamily_iff (fun _ _ h => Instruction.decimal.inj h)
    (fun _ => rfl) (fun _ => rfl) rfl

theorem decode?_eq_pointGlyph_iff {x : Register} :
    decode? w = some (.pointGlyph x) ↔ w.group = 0xF ∧ w.lowByte = 0x29 ∧ w.x = x :=
  decode?_eq_ofRegisterFamily_iff (fun _ _ h => Instruction.pointGlyph.inj h)
    (fun _ => rfl) (fun _ => rfl) rfl

theorem decode?_eq_awaitKey_iff {x : Register} :
    decode? w = some (.awaitKey x) ↔ w.group = 0xF ∧ w.lowByte = 0x0A ∧ w.x = x :=
  decode?_eq_ofRegisterFamily_iff (fun _ _ h => Instruction.awaitKey.inj h)
    (fun _ => rfl) (fun _ => rfl) rfl

theorem decode?_eq_store_iff {x : Register} :
    decode? w = some (.store x) ↔ w.group = 0xF ∧ w.lowByte = 0x55 ∧ w.x = x :=
  decode?_eq_ofRegisterFamily_iff (fun _ _ h => Instruction.store.inj h)
    (fun _ => rfl) (fun _ => rfl) rfl

theorem decode?_eq_restore_iff {x : Register} :
    decode? w = some (.restore x) ↔ w.group = 0xF ∧ w.lowByte = 0x65 ∧ w.x = x :=
  decode?_eq_ofRegisterFamily_iff (fun _ _ h => Instruction.restore.inj h)
    (fun _ => rfl) (fun _ => rfl) rfl

end Instruction

end ChipEight
