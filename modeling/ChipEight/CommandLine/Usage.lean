import ChipEight.CommandLine.Options
/-!
# Usage

What the player says about its command line.

## Main definitions

- `Options.help` — the help text
- `UsageError.message` — what is wrong with a command line that is refused
-/

namespace ChipEight

def Options.help : String :=
  String.intercalate "\n" [
    "Runs a CHIP-8 ROM headlessly, printing each new frame as text.",
    "",
    "Usage: chip8 [OPTIONS] <ROM>",
    "",
    "Arguments:",
    "  <ROM>  ROM image to load at 0x200",
    "",
    "Options:",
    "      --cosmac           Use COSMAC VIP behaviour for shifts, OR/AND/XOR and FX55/FX65",
    "      --seed <SEED>      Seed for RND; entropy from the OS when absent",
    "      --frames <FRAMES>  Halt after this many frames; runs until halted when absent",
    "      --ipf <IPF>        Instructions executed per 60Hz frame [default: 8]",
    "      --keys <CHARS>     Keyboard keys held for the whole run "
      ++ "(1234/QWER/ASDF/ZXCV layout) [default: ]",
    "  -h, --help             Print help"]

def UsageError.message : UsageError → String
  | .helpRequested => "help requested"
  | .unknownArgument => "unexpected argument"
  | .missingValue => "a value is required"
  | .badValue => "invalid value"
  | .surplusValue => "unexpected value"
  | .repeated => "an option cannot be used multiple times"
  | .missingRom => "the following required arguments were not provided: <ROM>"

end ChipEight
