import ChipEight.Core.Arithmetic
import ChipEight.Screen.Sprite
/-!
# Drawing

The two instructions that change the picture.

## Main definitions

- `Core.clearScreen` — a blank screen
- `Core.draw` — a sprite from memory drawn on the screen
-/

namespace ChipEight.Core

def clearScreen (core : Core) : Core :=
  { core with screen := Screen.blank, redraw := true }.next

/-- Flips the pixels of the sprite of `height` rows at the index, with its corner
at column `Vx` and row `Vy`. The flag register tells whether a lit cell stood
under the sprite. -/
def draw (x y : Register) (height : Nibble) (core : Core) : Except Fault Core :=
  (Span.locate core.index height.val).map fun span =>
    let rows := (core.memory.read span).toList
    let pixels := Sprite.pixels (core.get x).toNat (core.get y).toNat rows
    let drawn := { core with screen := core.screen.flipAll pixels, redraw := true }
    (drawn.set Register.flag (core.screen.overlap pixels)).next

end ChipEight.Core
