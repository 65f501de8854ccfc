import ChipEight.Proofs.Instruction.Effect
import ChipEight.Proofs.Screen.Sprite
/-!
# Drawing

A drawn sprite pixel by pixel. Which pixels it covers is said without drawing it: each of its
bits that are set falls on one pixel, and no two of them on the same. The cells under these
pixels are inverted, and the flag tells whether one of them was lit.

## Main definitions

- `Core.spriteBit` — a bit of the sprite at the index
- `Core.Covers` — the pixel that a bit which is set falls on

## Main statements

- `Core.mem_pixels_iff_covers` — the pixels of a sprite, bit by bit
- `Core.Covers.unique` — a pixel has at most one bit
- `Core.draw_pixelwise` — every drawing
-/

namespace ChipEight.Core

/-- Whether a bit of the sprite at the index is set, in the row `row` counted from the top and
at the place `bit` counted from the left. -/
def spriteBit (core : Core) (row bit : Nat) : Bool :=
  core.memory[core.index.toNat + row]?.any fun bits => bits.toNat.testBit (7 - bit)

/-- The sprite of `height` rows at the index has a bit that is set, and this bit falls on the
pixel when the sprite is drawn with its corner at column `Vx` and row `Vy`. -/
structure Covers (core : Core) (x y : Register) (height : Nibble) (row bit : Nat) (p : Pixel) :
    Prop where
  row_lt : row < height.val
  bit_lt : bit < 8
  isSet : core.spriteBit row bit = true
  column_eq : p.column.val = ((core.get x).toNat + bit) % 64
  row_eq : p.row.val = ((core.get y).toNat + row) % 32

variable {core : Core} {x y : Register} {height : Nibble}

/-- A sprite is narrower and lower than the screen, so no two of its bits meet. -/
theorem Covers.unique {row bit row' bit' : Nat} {p : Pixel}
    (first : core.Covers x y height row bit p) (second : core.Covers x y height row' bit' p) :
    row = row' ∧ bit = bit' := by
  have columns := first.column_eq.symm.trans second.column_eq
  have rows := first.row_eq.symm.trans second.row_eq
  have := first.bit_lt
  have := second.bit_lt
  have := first.row_lt
  have := second.row_lt
  omega

theorem covers_iff {row bit : Nat} {p : Pixel} :
    core.Covers x y height row bit p ↔
      row < height.val ∧ bit < 8 ∧ core.spriteBit row bit = true ∧
        p = Pixel.wrap ((core.get x).toNat + bit) ((core.get y).toNat + row) := by
  obtain ⟨column, line⟩ := p
  simp only [Pixel.wrap, Pixel.mk.injEq, Fin.ext_iff]
  constructor
  · rintro ⟨row_lt, bit_lt, isSet, column_eq, row_eq⟩
    exact ⟨row_lt, bit_lt, isSet, column_eq, row_eq⟩
  · rintro ⟨row_lt, bit_lt, isSet, column_eq, row_eq⟩
    exact ⟨row_lt, bit_lt, isSet, column_eq, row_eq⟩

/-- The pixels of a sprite are those that its bits fall on. -/
theorem mem_pixels_iff_covers {span : Span height.val}
    (located : Span.locate core.index height.val = .ok span) (p : Pixel) :
    p ∈ Sprite.pixels (core.get x).toNat (core.get y).toNat (core.memory.read span).toList ↔
      ∃ row bit, core.Covers x y height row bit p := by
  obtain ⟨-, start⟩ := Span.locate_eq_ok_iff.mp located
  simp only [Sprite.mem_pixels_iff, Memory.getElem?_toList_read, start, covers_iff, spriteBit,
    Sprite.mem_rowColumns, Option.any_eq_true]
  constructor
  · rintro ⟨row, bits, bit, found, ⟨bit_lt, isSet⟩, rfl⟩
    split at found
    · next row_lt => exact ⟨row, bit, row_lt, bit_lt, ⟨bits, found, isSet⟩, rfl⟩
    · cases found
  · rintro ⟨row, bit, row_lt, bit_lt, ⟨bits, found, isSet⟩, rfl⟩
    exact ⟨row, bits, bit, by rw [if_pos row_lt, found], ⟨bit_lt, isSet⟩, rfl⟩

/-- A sprite that lies in memory is drawn, whatever is on the screen. Each cell under a bit of
the sprite that is set has its lowest bit inverted, and every other cell stays as it was; no
two bits fall on one cell. On a screen of zeros and ones the flag register is left at one where
a lit cell stood under the sprite, and at zero otherwise. The picture counts as drawn on even
if the sprite is empty, the program counter moves on by one instruction, and nothing else
changes. Where the sprite goes is told by the registers as they were before, so the flag
register may be one of them. -/
theorem draw_pixelwise (core : Core) (x y : Register) (height : Nibble)
    (inside : core.index.toNat + height.val ≤ 4096) :
    let covered (p : Pixel) : Prop := ∃ row bit, core.Covers x y height row bit p
    ∃ (screen : Screen) (flag : Byte),
      (∀ dialect byte, (Instruction.draw x y height).execute dialect byte core =
        .ok (.next { core with
          screen
          registers := core.registers.set 15 flag
          redraw := true
          pc := core.pc + 2 })) ∧
      (∀ p, (covered p → screen.cell p = core.screen.cell p ^^^ 1) ∧
        (¬ covered p → screen.cell p = core.screen.cell p)) ∧
      (∀ p row bit row' bit', core.Covers x y height row bit p →
        core.Covers x y height row' bit' p → row = row' ∧ bit = bit') ∧
      ((∀ p, core.screen.cell p = 0 ∨ core.screen.cell p = 1) →
        ((∃ p, covered p ∧ core.screen.cell p = 1) → flag = 1) ∧
        ((¬ ∃ p, covered p ∧ core.screen.cell p = 1) → flag = 0)) := by
  intro covered
  have located : Span.locate core.index height.val = .ok ⟨core.index.toNat, inside⟩ :=
    Span.locate_eq_ok_iff.mpr ⟨inside, rfl⟩
  let pixels := Sprite.pixels (core.get x).toNat (core.get y).toNat
    (core.memory.read ⟨core.index.toNat, inside⟩).toList
  have pixel (p : Pixel) : p ∈ pixels ↔ covered p := mem_pixels_iff_covers located p
  have distinct : pixels.Nodup := Sprite.nodup_pixels_toList _ _ _
  refine ⟨core.screen.flipAll pixels, core.screen.overlap pixels, fun dialect byte => ?_,
    fun p => ?_, fun _ _ _ _ _ => Covers.unique, fun bit => ?_⟩
  · simp only [Instruction.execute, draw, located]
    rfl
  · rw [Screen.cell_flipAll_of_nodup _ distinct]
    exact ⟨fun yes => if_pos ((pixel p).mpr yes), fun no => if_neg (mt (pixel p).mp no)⟩
  · have lit_iff : (∃ p ∈ pixels, core.screen.cell p = 1) ↔
        ∃ p, covered p ∧ core.screen.cell p = 1 := exists_congr fun p => and_congr_left' (pixel p)
    rw [Screen.overlap_eq bit]
    exact ⟨fun lit => if_pos (lit_iff.mpr lit), fun dark => if_neg (mt lit_iff.mp dark)⟩

/-- A digit drawn round the right and the bottom edge, at the place that the flag register names
for both of its coordinates: the lit cell under it goes out, and the flag is set. -/
theorem draw_pixelwise_round_both_edges :
    let core : Core := { Core.fresh with
      registers := Core.fresh.registers.set 15 254
      screen := Screen.blank.flip ⟨0, 30⟩ }
    core.index.toNat + (5 : Nibble).val ≤ 4096 ∧
      core.Covers 0xF 0xF 5 0 2 ⟨0, 30⟩ ∧ core.Covers 0xF 0xF 5 2 3 ⟨1, 0⟩ ∧
      ∃ after, (Instruction.draw 0xF 0xF 5).execute .modern 0 core = .ok (.next after) ∧
        after.get 0xF = 1 ∧ after.screen.cell ⟨0, 30⟩ = 0 ∧ after.screen.cell ⟨1, 0⟩ = 1 := by
  intro core
  have inside : core.index.toNat + (5 : Nibble).val ≤ 4096 := by decide
  have lit_cell : core.Covers 0xF 0xF 5 0 2 ⟨0, 30⟩ :=
    ⟨by decide, by decide, by decide +kernel, by decide, by decide⟩
  have dark_cell : core.Covers 0xF 0xF 5 2 3 ⟨1, 0⟩ :=
    ⟨by decide, by decide, by decide +kernel, by decide, by decide⟩
  have lit : core.screen.cell ⟨0, 30⟩ = 1 := by rw [Screen.cell_flip, Screen.cell_blank]; rfl
  have dark : core.screen.cell ⟨1, 0⟩ = 0 := by rw [Screen.cell_flip, Screen.cell_blank]; rfl
  have bit : ∀ p, core.screen.cell p = 0 ∨ core.screen.cell p = 1 := by
    intro p
    rw [Screen.cell_flip, Screen.cell_blank]
    split
    · exact Or.inr rfl
    · exact Or.inl rfl
  obtain ⟨screen, flag, drawn, cells, -, flags⟩ := draw_pixelwise core 0xF 0xF 5 inside
  have collided : flag = 1 := (flags bit).1 ⟨_, ⟨0, 2, lit_cell⟩, lit⟩
  refine ⟨inside, lit_cell, dark_cell, _, drawn .modern 0, ?_, ?_, ?_⟩
  · exact collided
  · rw [(cells _).1 ⟨0, 2, lit_cell⟩, lit]
    rfl
  · rw [(cells _).1 ⟨2, 3, dark_cell⟩, dark]
    rfl

end ChipEight.Core
