import ChipEight.Proofs.Instruction.Effect
import ChipEight.Proofs.Screen.Sprite
/-!
# Ranges

The bounds that the stack pointer, the index, the screen and the stack keep while
programs run. They hold together or not at all: a call may fill a slot because the
stack pointer is bounded, and the slot is bounded because the call was fetched.

## Main definitions

- `Core.InRange` — all the bounds

## Main statements

- `Core.inRange_fresh`, `Core.InRange.reset` — how they begin
- `Core.InRange.effect` — an instruction that was fetched from memory keeps them
-/

namespace ChipEight

theorem Word.toNat_mod_size (w : Word) : (w % 4096).toNat = w.toNat % 4096 :=
  UInt16.toNat_mod w 4096

namespace Screen

theorem flipAll_cell_bit {screen : Screen} (bit : ∀ p, screen.cell p = 0 ∨ screen.cell p = 1)
    (pixels : List Pixel) (p : Pixel) :
    (screen.flipAll pixels).cell p = 0 ∨ (screen.flipAll pixels).cell p = 1 := by
  rw [cell_flipAll]
  split
  · rcases bit p with h | h <;> rw [h] <;> decide
  · exact bit p

end Screen

namespace Core

/-- The bounds that programs keep. -/
structure InRange (core : Core) : Prop where
  sp_le : core.sp.toNat ≤ 15
  index_le : core.index.toNat ≤ 0xFFF
  cell_bit : ∀ p, core.screen.cell p = 0 ∨ core.screen.cell p = 1
  slot_le : ∀ slot : Fin stackSize, core.stack[slot].toNat ≤ 0xFFE
  last_slot : core.stack[15] = 0

variable {dialect : Dialect} {core after : Core} {instruction : Instruction}

/-- The bounds speak of four parts of the core. -/
theorem InRange.of_eq (h : core.InRange) (hsp : after.sp = core.sp)
    (hindex : after.index = core.index) (hscreen : after.screen = core.screen)
    (hstack : after.stack = core.stack) : after.InRange := by
  constructor
  · rw [hsp]; exact h.sp_le
  · rw [hindex]; exact h.index_le
  · rw [hscreen]; exact h.cell_bit
  · rw [hstack]; exact h.slot_le
  · rw [hstack]; exact h.last_slot

theorem inRange_fresh : fresh.InRange := by
  constructor
  · decide
  · decide
  · intro p
    exact Or.inl (Screen.cell_blank p)
  · intro slot
    simp [fresh]
  · simp [fresh]

theorem InRange.reset (core : Core) : core.reset.InRange :=
  inRange_fresh.of_eq rfl rfl rfl rfl

theorem InRange.assignIndex (h : core.InRange) {value : Word} (bound : value.toNat ≤ 0xFFF) :
    (core.assignIndex value).InRange :=
  ⟨h.sp_le, bound, h.cell_bit, h.slot_le, h.last_slot⟩

theorem indexAfter_le (h : core.InRange) (dialect : Dialect) (count : Nat) :
    (core.indexAfter dialect count).toNat ≤ 0xFFF := by
  rw [indexAfter]
  split
  · rw [Word.toNat_mod_size]
    omega
  · exact h.index_le

theorem InRange.addIndex (h : core.InRange) (x : Register) : (core.addIndex x).InRange := by
  apply h.assignIndex
  rw [Word.toNat_mod_size]
  omega

theorem InRange.pointGlyph (h : core.InRange) (x : Register) : (core.pointGlyph x).InRange := by
  apply h.assignIndex
  have digit : (core.get x).toNat % 16 < 16 := Nat.mod_lt _ (by decide)
  rw [UInt16.toNat_ofNat']
  refine Nat.le_trans (Nat.mod_le _ _) ?_
  simp only [Font.start, Font.glyphHeight]
  omega

theorem InRange.draw (h : core.InRange) (pixels : List Pixel) :
    ({ core with screen := core.screen.flipAll pixels } : Core).InRange :=
  ⟨h.sp_le, h.index_le, Screen.flipAll_cell_bit h.cell_bit pixels, h.slot_le, h.last_slot⟩

theorem toNat_sp_add_one (room : core.sp.toNat + 1 < stackSize) :
    (core.sp + 1).toNat = core.sp.toNat + 1 := by
  rw [UInt8.toNat_add]
  exact Nat.mod_eq_of_lt (Nat.lt_trans room (by decide))

/-- A call keeps the bounds because its own address is one that was fetched from. -/
theorem InRange.entered (h : core.InRange) (fetched : core.pc.toNat ≤ 0xFFE) (target : Word)
    (room : core.sp.toNat + 1 < stackSize) : (core.entered target room).InRange := by
  have free : core.sp.toNat + 1 < 16 := room
  constructor
  · show (core.sp + 1).toNat ≤ 15
    rw [toNat_sp_add_one room]
    exact Nat.le_of_lt_succ free
  · exact h.index_le
  · exact h.cell_bit
  · intro slot
    simp only [Core.entered, Fin.getElem_fin, Vector.getElem_set]
    split
    · exact fetched
    · exact h.slot_le slot
  · simp only [Core.entered, Vector.getElem_set]
    rw [if_neg (by omega)]
    exact h.last_slot

theorem toNat_sp_pos (nonempty : core.sp ≠ 0) : 0 < core.sp.toNat :=
  Nat.pos_of_ne_zero fun hzero => nonempty (UInt8.toNat_inj.mp hzero)

theorem toNat_sp_sub_one (nonempty : core.sp ≠ 0) :
    (core.sp - 1).toNat = core.sp.toNat - 1 := by
  have one_le : (1 : UInt8) ≤ core.sp := by
    rw [UInt8.le_iff_toNat_le]
    exact toNat_sp_pos nonempty
  rw [UInt8.toNat_sub_of_le _ _ one_le]
  rfl

theorem InRange.returned (h : core.InRange) (nonempty : core.sp ≠ 0)
    (bound : core.sp.toNat - 1 < stackSize) : (core.returned bound).InRange := by
  refine ⟨?_, h.index_le, h.cell_bit, h.slot_le, h.last_slot⟩
  show (core.sp - 1).toNat ≤ 15
  rw [toNat_sp_sub_one nonempty]
  exact Nat.le_trans (Nat.sub_le _ _) h.sp_le

/-- An instruction that was fetched from memory keeps the bounds. -/
theorem InRange.effect (h : core.InRange) (fetched : core.pc.toNat ≤ 0xFFE)
    (effect : Effect dialect core instruction after) : after.InRange := by
  cases effect with
  | registers => exact h.of_eq rfl rfl rfl rfl
  | clear =>
    exact ⟨h.sp_le, h.index_le, fun p => Or.inl (Screen.cell_blank p), h.slot_le, h.last_slot⟩
  | ret nonempty bound => exact h.returned nonempty bound
  | call target room => exact h.entered fetched _ room
  | setIndex target =>
    apply h.assignIndex
    rw [Word.toNat_ofAddress]
    omega
  | addIndex x => exact h.addIndex x
  | pointGlyph x => exact h.pointGlyph x
  | draw x y height span located registers => exact (h.draw _).of_eq rfl rfl rfl rfl
  | setDelay x => exact h.of_eq rfl rfl rfl rfl
  | setSound x => exact h.of_eq rfl rfl rfl rfl
  | decimal x span located => exact h.of_eq rfl rfl rfl rfl
  | store x span located =>
    exact (h.assignIndex (indexAfter_le h dialect (x.val + 1))).of_eq rfl rfl rfl rfl
  | restore x span located =>
    exact (h.assignIndex (indexAfter_le h dialect (x.val + 1))).of_eq rfl rfl rfl rfl

end Core

end ChipEight
