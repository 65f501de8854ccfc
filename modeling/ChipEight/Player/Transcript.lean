import ChipEight.CommandLine.Reading
import ChipEight.CommandLine.Usage
import ChipEight.Player.Playback
/-!
# Transcripts

All that the player prints, from its command line to its end.

## Main definitions

- `Transcript` — exit code, standard output and standard error
- `UsageError.transcript`, `LoadError.transcript` — a player that does not play
- `Options.transcript` — a player with given options
- `Transcript.ofArguments` — a player with a given command line

## Design notes

A player without a frame limit does not end, so it has no transcript.
-/

namespace ChipEight

structure Transcript where
  exitCode : UInt32
  output : String := ""
  complaint : String := ""
  deriving DecidableEq, Repr

def Transcript.complain (message : String) : String :=
  "error: " ++ message ++ "\n"

/-- A player that refuses its command line. Whoever asks for help gets it, and
that is no failure. -/
def UsageError.transcript : UsageError → Transcript
  | .helpRequested => { exitCode := 0, output := Options.help ++ "\n" }
  | error => { exitCode := 2, complaint := Transcript.complain error.message }

def LoadError.transcript (error : LoadError) : Transcript where
  exitCode := 1
  complaint := Transcript.complain error.message

/-- A player with given options, and the bytes of the program if its file could be
read. The first frame is played even under a limit of zero. -/
def Options.transcript (options : Options) (entropy : ChaCha.Key) (rom : Option (List Byte)) :
    Option Transcript :=
  match options.session entropy rom with
  | .error error => some error.transcript
  | .ok session =>
    -- the limit is looked at after a frame, so one frame is played in any case
    session.limit.map fun limit =>
      { exitCode := 0, output := session.play (max limit 1) "" }

/-- A player with a given command line, where `contents` holds the bytes of every
file that can be read. -/
def Transcript.ofArguments (arguments : List String) (contents : String → Option (List Byte))
    (entropy : ChaCha.Key) : Option Transcript :=
  match Options.ofArguments arguments with
  | .error error => some error.transcript
  | .ok options => options.transcript entropy (contents options.rom)

end ChipEight
