import ChipEight.Machine.Basic
/-!
# Programs and their sources

A program is loaded from bytes, or from a source that is read piece by piece.

## Main definitions

- `Read` — what one read of a source gives
- `Source.contents` — all bytes up to the end of a source
- `Machine.load`, `Machine.loadFrom` — the machine with a program in memory

## Design notes

A load that fails gives no machine at all: the caller is left with the one it had.
-/

namespace ChipEight

inductive ReadFailure where
  | interrupted
  | permissionDenied
  | unexpectedEnd
  | other
  deriving DecidableEq, Repr

/-- What one read of a source gives. No bytes at all mean the end of the source. -/
inductive Read where
  /-- The next bytes, or none at the end. -/
  | bytes (chunk : List Byte)
  | failure (cause : ReadFailure)
  deriving DecidableEq, Repr

/-- All bytes of a source, given by its reads in turn and followed by its end.
Interrupted reads are tried again; any other failure is final, and the bytes
before it are lost. -/
def Source.contents : List Read → Except LoadError (List Byte)
  | [] => .ok []
  | .bytes [] :: _ => .ok []
  | .bytes chunk :: rest => (contents rest).map (chunk ++ ·)
  | .failure .interrupted :: rest => contents rest
  | .failure _ :: _ => .error .unreadable

namespace Machine

def load (machine : Machine) (program : List Byte) : Except LoadError (Report Machine Unit) :=
  (machine.core.load program).map fun core =>
    { value := ()
      after := { machine with core }
      events := #[.loaded program.length] }

/-- The machine with the program of a source in memory. -/
def loadFrom (machine : Machine) (source : List Read) : Except LoadError (Report Machine Unit) :=
  match Source.contents source with
  | .ok program => machine.load program
  | .error error => .error error

end Machine

end ChipEight
