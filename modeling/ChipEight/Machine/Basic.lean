import ChipEight.Machine.Event
import ChipEight.Random.ChaCha
import ChipEight.Settings
/-!
# The machine

A core together with what it was built with and its source of random bytes.

## Main definitions

- `Machine` — core, settings and random words
- `Machine.start` — a machine that was just switched on
- `Report` — what an operation answers, leaves and reports
-/

namespace ChipEight

structure Machine where
  core : Core
  settings : Settings
  random : WordStream

/-- A machine that was just switched on. Its random words follow from the seed, or
from the key `entropy` if there is no seed. -/
def Machine.start (settings : Settings) (entropy : ChaCha.Key) : Machine where
  core := Core.fresh
  settings := settings
  random := ChaCha.stream (match settings.seed with
    | some seed => ChaCha.Key.ofSeed seed
    | none => entropy)

/-- What an operation answers, what it leaves, and the events on its way, in order. -/
structure Report (σ α : Type) where
  value : α
  after : σ
  events : Array Event := #[]

end ChipEight
