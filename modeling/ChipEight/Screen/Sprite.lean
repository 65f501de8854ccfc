import ChipEight.Screen.Basic
/-!
# Sprites

The pixels that a sprite covers when it is drawn at a place.

## Main definitions

- `Sprite.rowColumns` — the columns of the bits that are set in one row
- `Sprite.pixels` — all pixels of a sprite, row by row

## Design notes

A sprite is at most fifteen rows tall and eight pixels wide, so going round the
edges of the screen never brings two of its pixels to one place.
-/

namespace ChipEight.Sprite

/-- The positions of the bits that are set in a row of a sprite, counted from
the most significant bit, which is the leftmost pixel. -/
def rowColumns (row : Byte) : List Nat :=
  (List.range 8).filter fun column => row.toNat.testBit (7 - column)

/-- The pixels of a sprite with its top left corner at the given column and row. -/
def pixels (column row : Nat) : (rows : List Byte) → List Pixel
  | [] => []
  | bits :: rest =>
    (rowColumns bits).map (fun offset => Pixel.wrap (column + offset) row)
      ++ pixels column (row + 1) rest

end ChipEight.Sprite
