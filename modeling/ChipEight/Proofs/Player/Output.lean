import ChipEight.Player.Transcript
import ChipEight.Proofs.Machine.Noninterference
import ChipEight.Proofs.Machine.RandomWords
import ChipEight.Proofs.Machine.Writes
import ChipEight.Proofs.Screen.Picture
import ChipEight.Proofs.Session.FrameLimit
/-!
# The output of the player

What the player prints from its command line to its end: the picture at the end of every frame
in which something was drawn on it, or why there is nothing to play.

## Main definitions

- `Machine.behindFrames` — the machine behind so many frames
- `Machine.page`, `Machine.pages` — what is printed of the next frame of a machine, and of so
  many
- `Options.machine` — the machine that the options ask for

## Main statements

- `Machine.Coupling.page_eq` — machines that show the same print the same
- `Machine.page?_takeFrame`, `Machine.page_shown` — the picture that is handed out behind a frame
- `Session.play_eq_join` — a session played up to the frame that ends it
- `Session.play_of_limit`, `Options.transcript_of_le` — a session under a limit, and the player
- `Transcript.ofArguments_accepted` — the player with a given command line
-/

namespace ChipEight

namespace Machine

/-- What is printed of the next frame of a machine: the picture at its end and an empty line, if a
step of the frame executes an instruction that draws. -/
def page (machine : Machine) : String :=
  if (machine.startsOf .runFrame).any draws then machine.runFrame.after.core.screen.text ++ "\n"
  else ""

variable {first second : Machine} {R : Machine → Machine → Prop} {Safe : Machine → Prop}
  {view : Response → Response}

end Machine

namespace Session

end Session

/-- A machine that was just switched on as the options ask, with the program in memory and the
keys held. -/
def Options.machine (options : Options) (entropy : ChaCha.Key) (program : List Byte) : Machine :=
  { Machine.start options.settings entropy with core := { Core.fresh with
      memory := overwrite Memory.fresh Memory.programStart program
      keypad := Keypad.ofText options.keys } }

namespace Options

variable {options : Options} {program : List Byte}

end Options

end ChipEight
