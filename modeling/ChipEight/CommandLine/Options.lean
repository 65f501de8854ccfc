import ChipEight.Settings
import ChipEight.Text.Numeral
/-!
# Options

What the player is asked to do, and how a value on the command line is read.

## Main definitions

- `Options` — the program to play and how
- `Options.settings` — the settings of the machine
- `Field` — the parts of the command line that have a value
- `UsageError` — why a command line is refused
- `Draft` — the options read so far, and `Draft.put` for one more value
-/

namespace ChipEight

structure Options where
  rom : String
  cosmac : Bool := false
  seed : Option UInt64 := none
  /-- The number of frames to play; without one the player runs on. -/
  frames : Option UInt64 := none
  instructionsPerFrame : UInt64 := UInt64.ofNat Settings.defaultSpeed
  keys : String := ""
  deriving DecidableEq, Repr

def Options.settings (options : Options) : Settings where
  dialect := if options.cosmac then .cosmacVip else .modern
  instructionsPerFrame := options.instructionsPerFrame.toNat
  seed := options.seed

/-- The parts of the command line that have a value. -/
inductive Field where
  | rom
  | seed
  | frames
  | instructionsPerFrame
  | keys
  deriving DecidableEq, Repr

inductive UsageError where
  | helpRequested
  /-- Nothing is known by this name, or there is one argument too many. -/
  | unknownArgument
  | missingValue
  | badValue
  | surplusValue
  | repeated
  | missingRom
  deriving DecidableEq, Repr

/-- The options read so far; a value that was not given yet is missing. -/
structure Draft where
  rom : Option String := none
  cosmac : Bool := false
  seed : Option UInt64 := none
  frames : Option UInt64 := none
  instructionsPerFrame : Option UInt64 := none
  keys : Option String := none
  deriving DecidableEq, Repr

namespace Draft

def once {α : Type} (current : Option α) (value : Except UsageError α) :
    Except UsageError (Option α) :=
  match current with
  | some _ => .error .repeated
  | none => value.map some

def number (value : String) : Except UsageError UInt64 :=
  match Text.uint64? value with
  | some n => .ok n
  | none => .error .badValue

def romName (value : String) : Except UsageError String :=
  if value = "" then .error .missingValue else .ok value

/-- The draft with one more value. A missing value is found before a repetition,
and a repetition before a value that is no number. -/
def put (draft : Draft) (field : Field) (value : Option String) : Except UsageError Draft :=
  match value with
  | none => .error .missingValue
  | some value =>
    match field with
    | .rom => (once draft.rom (romName value)).map fun rom => { draft with rom }
    | .seed => (once draft.seed (number value)).map fun seed => { draft with seed }
    | .frames => (once draft.frames (number value)).map fun frames => { draft with frames }
    | .instructionsPerFrame =>
      (once draft.instructionsPerFrame (number value)).map fun instructionsPerFrame =>
        { draft with instructionsPerFrame }
    | .keys => (once draft.keys (.ok value)).map fun keys => { draft with keys }

/-- The draft with the reading of the first machine chosen. -/
def chooseCosmac (draft : Draft) : Except UsageError Draft :=
  if draft.cosmac then .error .repeated else .ok { draft with cosmac := true }

def options (draft : Draft) : Except UsageError Options :=
  match draft.rom with
  | none => .error .missingRom
  | some rom => .ok {
      rom := rom
      cosmac := draft.cosmac
      seed := draft.seed
      frames := draft.frames
      instructionsPerFrame := draft.instructionsPerFrame.getD (UInt64.ofNat Settings.defaultSpeed)
      keys := draft.keys.getD "" }

end Draft

end ChipEight
