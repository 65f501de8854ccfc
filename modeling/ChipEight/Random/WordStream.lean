import ChipEight.Word
/-!
# Streams of random words

Where random bytes come from: an endless sequence of 32-bit words and the number
of words taken from it.

## Main definitions

- `WordStream` — the sequence and the position in it
- `WordStream.byte` — the random byte that the next word gives
- `WordStream.advance` — the stream behind that word
- `WordStream.cycle` — a list of words that starts over after its end

## Design notes

The words are a function of their position. What a machine draws therefore
depends on nothing but the function and the number of words drawn before.
-/

namespace ChipEight

/-- An endless sequence of words, of which the first `drawn` are used up. -/
structure WordStream where
  word : Nat → UInt32
  drawn : Nat := 0

namespace WordStream

/-- The random byte that the next word gives: its lowest eight bits. -/
def byte (stream : WordStream) : Byte :=
  (stream.word stream.drawn).toUInt8

def advance (stream : WordStream) : WordStream :=
  { stream with drawn := stream.drawn + 1 }

@[simp] theorem drawn_advance (stream : WordStream) :
    stream.advance.drawn = stream.drawn + 1 := rfl

@[simp] theorem word_advance (stream : WordStream) : stream.advance.word = stream.word := rfl

/-- The words of a list in turn, over and over; zeros if there are none. -/
def cycle (words : List UInt32) : WordStream where
  word position := words.getD (position % words.length) 0

end WordStream

end ChipEight
