import ChipEight.Machine.Control
import ChipEight.Machine.Frame
/-!
# Sessions

A machine that is run frame by frame, with a count of the frames, an optional
limit on them, and a beeper.

## Main definitions

- `Session` — a machine and the host's side of it
- `Session.advance` — one frame
- `Session.halted` — whether the session is over
-/

namespace ChipEight

structure Session where
  machine : Machine
  frames : Nat := 0
  /-- The number of frames after which the machine is halted, if there is one. -/
  limit : Option Nat := none
  beeping : Bool := false

namespace Session

def limitReached (session : Session) (frames : Nat) : Bool :=
  match session.limit with
  | some limit => limit ≤ frames
  | none => false

/-- The report of a beeper that is now on or off, if that is a change. -/
def beeperEvents (session : Session) (frames : Nat) (beeping : Bool) : Array Event :=
  if beeping = session.beeping then #[] else #[.beep frames beeping]

/-- The machine halted if so many frames reach the limit. -/
def haltAtLimit (session : Session) (frames : Nat) (machine : Machine) : Report Machine Unit :=
  if session.limitReached frames then machine.apply .halt
  else { value := (), after := machine }

/-- Runs one frame. The value is the picture, if it was drawn on. -/
def advance (session : Session) : Report Session (Option Screen) :=
  let run := session.machine.runFrame
  let frames := session.frames + 1
  let beeping := run.after.core.sounding
  -- a picture drawn in the last frame is still handed out
  let halt := session.haltAtLimit frames run.after
  let taken := halt.after.takeFrame
  { value := taken.value
    after := { session with machine := taken.after, frames, beeping }
    events := run.events
      ++ #[.frame frames run.value run.after.core.panel]
      ++ session.beeperEvents frames beeping
      ++ halt.events }

def halted (session : Session) : Bool :=
  session.machine.core.control = .halted

end Session

end ChipEight
