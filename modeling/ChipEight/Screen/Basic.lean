import ChipEight.Word
/-!
# Screen

The picture of 64 by 32 cells, one byte to a cell, and the one change that
drawing makes to it: a pixel is flipped.

## Main definitions

- `Screen` — rows of cells, top row first, leftmost cell first
- `Pixel` — a place on the screen, and `Pixel.wrap` for one given by any numbers
- `Screen.cell`, `Screen.flip` — the cell at a place, and the screen with the
  lowest bit of that cell inverted
- `Screen.flipAll`, `Screen.overlap` — the screen with several pixels flipped,
  and the cells that stand under them

## Design notes

A cell is a byte and not a Boolean, because a picture may come from outside with
any cell values; on a screen that only instructions have touched, every cell is
0 or 1.
-/

namespace ChipEight

abbrev Screen.width : Nat := 64

abbrev Screen.height : Nat := 32

/-- A picture: rows from the top, cells from the left. -/
abbrev Screen := Vector (Vector Byte Screen.width) Screen.height

structure Pixel where
  column : Fin Screen.width
  row : Fin Screen.height
  deriving DecidableEq, Repr

/-- The place reached by counting columns and rows from the top left corner,
going round at the right and the bottom edge. -/
def Pixel.wrap (column row : Nat) : Pixel where
  column := ⟨column % Screen.width, Nat.mod_lt _ (by decide)⟩
  row := ⟨row % Screen.height, Nat.mod_lt _ (by decide)⟩

namespace Screen

def blank : Screen :=
  Vector.replicate height (Vector.replicate width 0)

def cell (screen : Screen) (p : Pixel) : Byte :=
  screen[p.row][p.column]

/-- The screen with the lowest bit of one cell inverted. -/
def flip (screen : Screen) (p : Pixel) : Screen :=
  let row := screen[p.row]
  screen.set p.row (row.set p.column (row[p.column] ^^^ 1))

/-- The screen with the listed pixels flipped, one after the other. -/
def flipAll (screen : Screen) (pixels : List Pixel) : Screen :=
  pixels.foldl flip screen

@[simp] theorem flipAll_nil (screen : Screen) : screen.flipAll [] = screen := rfl

@[simp] theorem flipAll_cons (screen : Screen) (p : Pixel) (pixels : List Pixel) :
    screen.flipAll (p :: pixels) = (screen.flip p).flipAll pixels := rfl

/-- The bits that are set in some cell under the listed pixels. -/
def overlap (screen : Screen) (pixels : List Pixel) : Byte :=
  pixels.foldl (fun bits p => bits ||| screen.cell p) 0

theorem ext_cell {s t : Screen} (h : ∀ p, s.cell p = t.cell p) : s = t := by
  apply Vector.ext
  intro row hrow
  apply Vector.ext
  intro column hcolumn
  exact h ⟨⟨column, hcolumn⟩, ⟨row, hrow⟩⟩

@[simp] theorem cell_blank (p : Pixel) : blank.cell p = 0 := by
  simp [cell, blank]

theorem cell_flip (screen : Screen) (p q : Pixel) :
    (screen.flip p).cell q = if p = q then screen.cell q ^^^ 1 else screen.cell q := by
  obtain ⟨px, py⟩ := p
  obtain ⟨qx, qy⟩ := q
  simp only [cell, flip, Fin.getElem_fin, Vector.getElem_set, Pixel.mk.injEq]
  by_cases hy : py = qy
  · subst hy
    by_cases hx : px = qx
    · subst hx
      simp
    · have : px.val ≠ qx.val := fun h => hx (Fin.ext h)
      simp [hx, this]
  · have : py.val ≠ qy.val := fun h => hy (Fin.ext h)
    simp [hy, this]

end Screen

end ChipEight
