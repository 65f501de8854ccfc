import ChipEight.Keypad.Basic
/-!
# Keyboard layout

The sixteen keys as they lie on the left of a keyboard:

```text
1 2 3 C      1 2 3 4
4 5 6 D      Q W E R
7 8 9 E      A S D F
A 0 B F      Z X C V
```

## Main definitions

- `Keypad.layout` — the keyboard character of each key
- `Keypad.ofChar?` — the key that a keyboard character stands for
- `Keypad.ofText` — the keypad with the keys of a text held
-/

namespace ChipEight.Keypad

def layout : Vector Char 16 :=
  #v['X', '1', '2', '3', 'Q', 'W', 'E', 'A', 'S', 'D', 'Z', 'C', '4', 'R', 'F', 'V']

/-- The key at a keyboard character. Letters of either case count, and only
those of ASCII: `Char.toUpper` maps no others. -/
def ofChar? (c : Char) : Option Nibble :=
  (List.finRange 16).find? fun key => layout.get key = c.toUpper

example : ofChar? 'q' = some 0x4 := by decide

/-- The keypad with the key of every character held. Characters that stand for
no key are passed over. -/
def ofText (text : String) : Keypad :=
  text.toList.foldl
    (fun keypad c => match ofChar? c with
      | some key => keypad.setIfInBounds key.val true
      | none => keypad)
    released

end ChipEight.Keypad
