import ChipEight.Screen.Basic
/-!
# Pictures as text

A screen drawn with characters, one line to a row.

## Main definitions

- `Screen.mark` — the character of a cell
- `Screen.line`, `Screen.picture` — the characters of a row and of a screen
- `Screen.text` — the picture as a string
-/

namespace ChipEight.Screen

/-- A lit cell is a number sign; any other value shows as a full stop. -/
def mark (cell : Byte) : Char :=
  if cell = 1 then '#' else '.'

/-- A row of cells and the end of its line. -/
def line (row : Vector Byte width) : List Char :=
  row.toList.map mark ++ ['\n']

def picture (screen : Screen) : List Char :=
  screen.toList.flatMap line

def text (screen : Screen) : String :=
  String.ofList screen.picture

end ChipEight.Screen
