import ChipEight.Random.WordStream
/-!
# The ChaCha generator

Random words from the ChaCha stream cipher with twelve rounds, and the expansion
of a 64-bit seed into a key.

## Main definitions

- `ChaCha.Key`, `ChaCha.Block` — eight and sixteen words
- `ChaCha.quarterRound`, `ChaCha.doubleRound` — the mixing of a block
- `ChaCha.block` — the block of a key at a counter
- `ChaCha.Key.ofSeed` — the key of a seed
- `ChaCha.stream` — the words of all blocks in order
-/

namespace ChipEight.ChaCha

abbrev Key := Vector UInt32 8

/-- The words that are mixed: four constants, the key, the counter and a zero nonce. -/
abbrev Block := Vector UInt32 16

def rotateLeft (w : UInt32) (count : UInt32) : UInt32 :=
  (w <<< count) ||| (w >>> (32 - count))

/-- A word with its bits rotated to the right; a rotation by zero keeps it. -/
def rotateRight (w : UInt32) (count : UInt32) : UInt32 :=
  (w >>> count) ||| (w <<< (32 - count))

/-- Adds the second word to the first, and rotates what the third gives with the sum. -/
def mix (a b d : Fin 16) (count : UInt32) (s : Block) : Block :=
  let sum := s[a] + s[b]
  (s.set a sum).set d (rotateLeft (s[d] ^^^ sum) count)

def quarterRound (a b c d : Fin 16) (s : Block) : Block :=
  mix c d b 7 (mix a b d 8 (mix c d b 12 (mix a b d 16 s)))

/-- A round on the columns of a block, read as four rows of four words, and one
on its diagonals. -/
def doubleRound (s : Block) : Block :=
  -- columns
  let s := quarterRound 0 4 8 12 s
  let s := quarterRound 1 5 9 13 s
  let s := quarterRound 2 6 10 14 s
  let s := quarterRound 3 7 11 15 s
  -- diagonals, which go round at the right edge
  let s := quarterRound 0 5 10 15 s
  let s := quarterRound 1 6 11 12 s
  let s := quarterRound 2 7 8 13 s
  quarterRound 3 4 9 14 s

def constants : Vector UInt32 4 :=
  #v[0x61707865, 0x3320646e, 0x79622d32, 0x6b206574]

def position (counter : UInt64) : Vector UInt32 4 :=
  #v[counter.toUInt32, (counter >>> 32).toUInt32, 0, 0]

def initial (key : Key) (counter : UInt64) : Block :=
  constants ++ key ++ position counter

/-- The block of a key at a counter: twelve rounds, and the block before them added. -/
def block (key : Key) (counter : UInt64) : Block :=
  let start := initial key counter
  Vector.zipWith (· + ·) ((List.range 6).foldl (fun s _ => doubleRound s) start) start

/-- The key of a seed. A linear congruential generator runs over 64-bit states,
and each state gives one word by a shift, a fold and a rotation. -/
def Key.ofSeed (seed : UInt64) : Key :=
  Vector.ofFn fun k =>
    let state := (List.range (k.val + 1)).foldl
      (fun s _ => s * 6364136223846793005 + 11634580027462260723) seed
    rotateRight (((state >>> 18) ^^^ state) >>> 27).toUInt32 (state >>> 59).toUInt32

/-- The words of all blocks of a key, in order. -/
def stream (key : Key) : WordStream where
  word position :=
    (block key (UInt64.ofNat (position / 16)))[Fin.ofNat 16 position]

-- the low bytes of the first words for the greatest seed
example : (List.range 4).map
    (fun k => ((stream (Key.ofSeed 0xFFFFFFFFFFFFFFFF)).word k).toUInt8)
      = [0xB8, 0x48, 0x9E, 0xB4] := by
  decide +kernel

end ChipEight.ChaCha
