/-!
# Numerals

The number formats of the machine's texts: hexadecimal of a fixed width,
decimals padded to a width, and the reading of decimal numerals.

## Main definitions

- `hexDigits`, `hex` — upper-case hexadecimal digits, a fixed number of them
- `padLeft`, `padRight` — a text filled up to a width
- `decimal?`, `uint64?` — the number that a numeral denotes

## Design notes

`hexDigits` recurses on the width, not on the number, so that its length is the
width by definition and a number below `16 ^ width` can be read back.
-/

namespace ChipEight.Text

def hexDigit (d : Nat) : Char :=
  if d < 10 then Char.ofNat (48 + d) else Char.ofNat (55 + d)

/-- The last `width` hexadecimal digits of `n`, most significant first, with
leading zeros. -/
def hexDigits : (width n : Nat) → List Char
  | 0, _ => []
  | width + 1, n => hexDigits width (n / 16) ++ [hexDigit (n % 16)]

def hex (width n : Nat) : String :=
  String.ofList (hexDigits width n)

/-- A text with `fill` put in front until it has `width` characters; a longer
text stays as it is. -/
def padLeft (width : Nat) (fill : Char) (text : String) : String :=
  String.ofList (text.toList.leftpad width fill)

/-- A text with blanks put behind until it has `width` characters; a longer
text stays as it is. -/
def padRight (width : Nat) (text : String) : String :=
  String.ofList (text.toList.rightpad width ' ')

/-- The value of a decimal digit. Only `0` to `9` are digits. -/
def digit? (c : Char) : Option Nat :=
  if '0' ≤ c ∧ c ≤ '9' then some (c.toNat - 48) else none

/-- Reads digits from left to right behind a number already read. -/
def appendDigits? : (read : Nat) → List Char → Option Nat
  | read, [] => some read
  | read, c :: rest =>
    match digit? c with
    | some d => appendDigits? (read * 10 + d) rest
    | none => none

def decimal? : List Char → Option Nat
  | [] => none
  | digits => appendDigits? 0 digits

/-- The 64-bit number that a text denotes: an optional plus sign, then one or
more decimal digits, and no overflow. -/
def uint64? (text : String) : Option UInt64 :=
  let digits := match text.toList with
    | '+' :: digits => digits
    | digits => digits
  match decimal? digits with
  | some n => if n < UInt64.size then some (UInt64.ofNat n) else none
  | none => none

-- leading zeros and a plus sign are read, a number that is too large is not
example : uint64? "+007" = some 7 := by decide

example : uint64? "18446744073709551616" = none := by decide

@[simp] theorem length_hexDigits (width n : Nat) : (hexDigits width n).length = width := by
  induction width generalizing n with
  | zero => rfl
  | succ width ih => simp [hexDigits, ih]

@[simp] theorem length_hex (width n : Nat) : (hex width n).length = width := by
  simp [hex]

example : hex 4 0x2A = "002A" := by decide

end ChipEight.Text
