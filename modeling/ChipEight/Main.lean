import ChipEight.Player.Transcript
/-!
# The player

The command line program: it loads a program, runs it in real time without a
window and prints every new picture as text.

## Main definitions

- `Player.run` — plays until the machine is halted
- `main` — reads the command line and plays
-/

namespace ChipEight.Player

def entropy : IO ChaCha.Key := do
  let bytes ← IO.getRandomBytes 32
  let byte (k : Nat) : UInt32 := (bytes.toList.getD k 0).toUInt32
  return Vector.ofFn fun k =>
    byte (4 * k.val) ||| (byte (4 * k.val + 1) <<< 8)
      ||| (byte (4 * k.val + 2) <<< 16) ||| (byte (4 * k.val + 3) <<< 24)

/-- The bytes of a file, if it can be read. -/
def readRom (path : String) : IO (Option (List Byte)) := do
  try
    return some (← IO.FS.readBinFile path).toList
  catch _ =>
    return none

def print (transcript : Transcript) : IO UInt32 := do
  IO.print transcript.output
  IO.eprint transcript.complaint
  return transcript.exitCode

/-- Plays frame by frame until the machine is halted; the frame that began at
`start` lasts its full time. -/
partial def run (session : Session) (start : Nat) : IO Unit := do
  let frame := session.advance
  IO.print (Screen.page? frame.value)
  (← IO.getStdout).flush
  if frame.after.halted then
    return
  let due := start + Settings.frameNanoseconds
  let now ← IO.monoNanosNow
  if now < due then
    IO.sleep (UInt32.ofNat ((due - now) / 1000000))
  run frame.after (← IO.monoNanosNow)

def play (options : Options) : IO UInt32 := do
  match options.session (← entropy) (← readRom options.rom) with
  | .error error => print error.transcript
  | .ok session =>
    run session (← IO.monoNanosNow)
    return 0

end ChipEight.Player

open ChipEight

def main (arguments : List String) : IO UInt32 := do
  match Options.ofArguments arguments with
  | .ok options => Player.play options
  | .error error => Player.print error.transcript
