import ChipEight.Screen.Sprite
import Mathlib.Data.List.Nodup
/-!
# Pixels of a sprite

No two bits of a sprite fall on one pixel, whatever place it is drawn at: a sprite
is narrower and lower than the screen, so going round an edge does not bring it
back to where it started. Hence it does not matter whether the cells under a sprite
are looked at before or while it is drawn.

## Main definitions

- `Screen.plot` — a pixel flipped and its cell looked at

## Main statements

- `Sprite.mem_pixels_iff`, `Sprite.nodup_pixels` — the pixels of a sprite, which are distinct
- `Screen.foldl_plot` — looking at cells while drawing against looking before
- `Screen.cell_flipAll`, `Screen.overlap_eq` — what is drawn, cell by cell, and what is seen
-/

namespace ChipEight

namespace Sprite

@[simp] theorem mem_rowColumns {row : Byte} {column : Nat} :
    column ∈ rowColumns row ↔ column < 8 ∧ row.toNat.testBit (7 - column) = true := by
  simp [rowColumns]

theorem nodup_rowColumns (row : Byte) : (rowColumns row).Nodup :=
  List.nodup_range.filter _

theorem wrap_column_inj {column row a b : Nat} (ha : a < 8) (hb : b < 8)
    (h : Pixel.wrap (column + a) row = Pixel.wrap (column + b) row) : a = b := by
  simp only [Pixel.wrap, Pixel.mk.injEq, Fin.mk.injEq, and_true] at h
  have : (column + a) % 64 = (column + b) % 64 := h
  omega

/-- A pixel belongs to a sprite where one of the bits that are set falls on it. -/
theorem mem_pixels_iff {column row : Nat} {rows : List Byte} {p : Pixel} :
    p ∈ pixels column row rows ↔
      ∃ (k : Nat) (bits : Byte) (offset : Nat), rows[k]? = some bits ∧
        offset ∈ rowColumns bits ∧ p = Pixel.wrap (column + offset) (row + k) := by
  induction rows generalizing row with
  | nil => simp [pixels]
  | cons first rest ih =>
    rw [pixels, List.mem_append, List.mem_map, ih]
    constructor
    · rintro (⟨offset, member, rfl⟩ | ⟨k, bits, offset, found, member, rfl⟩)
      · exact ⟨0, first, offset, rfl, member, rfl⟩
      · refine ⟨k + 1, bits, offset, found, member, ?_⟩
        rw [Nat.add_right_comm, Nat.add_assoc]
    · rintro ⟨k, bits, offset, found, member, rfl⟩
      cases k with
      | zero =>
        cases found
        exact Or.inl ⟨offset, member, rfl⟩
      | succ k =>
        refine Or.inr ⟨k, bits, offset, found, member, ?_⟩
        rw [Nat.add_right_comm, Nat.add_assoc]

/-- The pixels of a sprite lie in as many rows as the sprite has. -/
theorem row_of_mem_pixels {column row : Nat} {rows : List Byte} {p : Pixel}
    (h : p ∈ pixels column row rows) :
    ∃ k, k < rows.length ∧ p.row.val = (row + k) % Screen.height := by
  obtain ⟨k, bits, offset, found, -, rfl⟩ := mem_pixels_iff.mp h
  exact ⟨k, (List.getElem?_eq_some_iff.mp found).1, rfl⟩

/-- No two bits of a sprite that is not taller than the screen share a pixel. -/
theorem nodup_pixels (column row : Nat) {rows : List Byte} (h : rows.length ≤ Screen.height) :
    (pixels column row rows).Nodup := by
  induction rows generalizing row with
  | nil => exact List.nodup_nil
  | cons bits rest ih =>
    rw [pixels, List.nodup_append]
    have hlength : rest.length + 1 ≤ 32 := h
    refine ⟨?_, ih (row + 1) (Nat.le_of_succ_le hlength), ?_⟩
    · refine (nodup_rowColumns bits).map_on fun a ha b hb hab => ?_
      exact wrap_column_inj ((mem_rowColumns.mp ha).1) ((mem_rowColumns.mp hb).1) hab
    · rintro p first q others rfl
      obtain ⟨offset, _, rfl⟩ := List.mem_map.mp first
      obtain ⟨k, hk, hrow⟩ := row_of_mem_pixels others
      have : row % 32 = (row + 1 + k) % 32 := hrow
      omega

/-- So no two bits share one in a sprite whose height an instruction gives. -/
theorem nodup_pixels_toList (column row : Nat) {height : Nibble} (rows : Vector Byte height.val) :
    (pixels column row rows.toList).Nodup := by
  apply nodup_pixels
  rw [Vector.length_toList]
  exact Nat.le_trans (Nat.le_of_lt height.isLt) (by decide)

end Sprite

namespace Screen

/-- One pixel flipped, and the cell that stood there added to the bits seen so far. -/
def plot (drawn : Screen × Byte) (p : Pixel) : Screen × Byte :=
  (drawn.1.flip p, drawn.2 ||| drawn.1.cell p)

/-- Cells looked at while distinct pixels are being flipped are those that stood
there before. -/
theorem foldl_plot (screen : Screen) (bits : Byte) {pixels : List Pixel} (h : pixels.Nodup) :
    pixels.foldl plot (screen, bits) =
      (screen.flipAll pixels, pixels.foldl (fun bits p => bits ||| screen.cell p) bits) := by
  induction pixels generalizing screen bits with
  | nil => rfl
  | cons p rest ih =>
    obtain ⟨absent, hrest⟩ := List.nodup_cons.mp h
    rw [List.foldl_cons, plot, ih _ _ hrest, flipAll_cons, List.foldl_cons]
    congr 1
    apply List.foldl_ext
    intro seen q hq
    have : p ≠ q := fun same => absent (same ▸ hq)
    rw [cell_flip, if_neg this]

/-- A cell is inverted as often as its pixel is listed. -/
theorem cell_flipAll (screen : Screen) (pixels : List Pixel) (p : Pixel) :
    (screen.flipAll pixels).cell p =
      if pixels.count p % 2 = 1 then screen.cell p ^^^ 1 else screen.cell p := by
  induction pixels generalizing screen with
  | nil => rfl
  | cons q rest ih =>
    rw [flipAll_cons, ih, cell_flip, List.count_cons]
    by_cases same : q = p
    · have twice : screen.cell p ^^^ 1 ^^^ 1 = screen.cell p := by
        rw [UInt8.xor_assoc, UInt8.xor_self, UInt8.xor_zero]
      rcases Nat.mod_two_eq_zero_or_one (rest.count p) with even | odd
      · simp [same, even, Nat.add_mod]
      · simp [same, odd, Nat.add_mod, twice]
    · simp [same]

theorem cell_flipAll_of_nodup (screen : Screen) {pixels : List Pixel} (h : pixels.Nodup)
    (p : Pixel) :
    (screen.flipAll pixels).cell p = if p ∈ pixels then screen.cell p ^^^ 1 else screen.cell p := by
  rw [cell_flipAll, List.Nodup.count h]
  by_cases member : p ∈ pixels <;> simp [member]

theorem overlap_cons (screen : Screen) (p : Pixel) (pixels : List Pixel) :
    screen.overlap (p :: pixels) = screen.cell p ||| screen.overlap pixels := by
  have fold (bits : Byte) : pixels.foldl (fun bits q => bits ||| screen.cell q) bits
      = (pixels.map screen.cell).foldl (· ||| ·) bits := List.foldl_map.symm
  rw [overlap, overlap, List.foldl_cons, fold, fold, UInt8.or_comm 0, List.foldl_assoc]

/-- On a screen of zeros and ones the overlap tells whether one of the pixels is lit. -/
theorem overlap_eq {screen : Screen} (bit : ∀ p, screen.cell p = 0 ∨ screen.cell p = 1)
    (pixels : List Pixel) :
    screen.overlap pixels = if ∃ p ∈ pixels, screen.cell p = 1 then 1 else 0 := by
  induction pixels with
  | nil => rfl
  | cons p rest ih =>
    rw [overlap_cons, ih]
    rcases bit p with dark | lit
    · simp [dark]
    · by_cases later : ∃ q ∈ rest, screen.cell q = 1 <;> simp [lit, later]

end Screen

end ChipEight
