import ChipEight.CommandLine.Options
import ChipEight.Keypad.Layout
import ChipEight.Machine.Command
import ChipEight.Screen.Picture
import ChipEight.Session
/-!
# Playback

A program loaded as the options ask and run frame by frame, with every new
picture as a page.

## Main definitions

- `Options.session` — the session that the options ask for
- `Screen.page`, `Screen.page?` — a picture as it is printed, if there is one
- `Session.play` — the pages printed in a number of frames
-/

namespace ChipEight

/-- The session that the options ask for, with the bytes of the program if its
file could be read. -/
def Options.session (options : Options) (entropy : ChaCha.Key) (rom : Option (List Byte)) :
    Except LoadError Session :=
  match rom with
  | none => .error .unreadable
  | some program =>
    ((Machine.start options.settings entropy).load program).map fun loaded =>
      { machine := loaded.after.setKeys (Keypad.ofText options.keys)
        limit := options.frames.map UInt64.toNat }

/-- A picture as it is printed: its lines and an empty line. -/
def Screen.page (screen : Screen) : String :=
  screen.text ++ "\n"

/-- The page of a frame; nothing is printed unless the picture was drawn on. -/
def Screen.page? : Option Screen → String
  | some screen => screen.page
  | none => ""

/-- The pages printed in up to `count` frames, behind those `printed` already. It
ends with the frame that halts the machine. -/
def Session.play : (count : Nat) → Session → (printed : String) → String
  | 0, _, printed => printed
  | count + 1, session, printed =>
    let frame := session.advance
    let printed := printed ++ Screen.page? frame.value
    if frame.after.halted then printed else play count frame.after printed

end ChipEight
