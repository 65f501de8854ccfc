import ChipEight.Proofs.Text.Layout
import ChipEight.Word
/-!
# Numerals read back

A numeral in one of the machine's texts tells which number was written: hexadecimal digits of a
fixed width for a number that fits in them, and decimal digits whether they are filled up with
zeros or with blanks.

## Main definitions

- `hexValue` — the number that hexadecimal digits denote
- `Denotes` — the numerals of a number that are read

## Main statements

- `hexValue_hexDigits` — what `hexDigits` writes is read back
- `hex_inj`, `hex_append_inj` — numerals of one width, alone and in front of other text
- `padLeft_repr_inj` — decimals that are filled up
- `not_mem_hex`, `not_mem_repr` — the characters that stand in no numeral
- `uint64?_of_denotes` — decimals with zeros and a plus sign in front, up to 64 bits
-/

namespace ChipEight.Text

/-- The value of a hexadecimal digit. -/
def hexDigitValue (c : Char) : Nat :=
  if c ≤ '9' then c.toNat - 48 else c.toNat - 55

/-- The number that hexadecimal digits denote, the most significant one first. -/
def hexValue (digits : List Char) : Nat :=
  digits.foldl (fun value c => value * 16 + hexDigitValue c) 0

theorem hexDigitValue_hexDigit : ∀ {d : Nat}, d < 16 → hexDigitValue (hexDigit d) = d := by
  decide

/-- Different digits have different characters. -/
theorem hexDigit_injective : Function.Injective fun d : Fin 16 => hexDigit d.val := by
  intro d e same
  have same := congrArg hexDigitValue same
  rw [hexDigitValue_hexDigit d.isLt, hexDigitValue_hexDigit e.isLt] at same
  exact Fin.ext same

theorem hexDigit_mem : ∀ {d : Nat}, d < 16 → hexDigit d ∈ "0123456789ABCDEF".toList := by
  decide

/-- What is written is read back, as far as it was written: the digits stand for the remainder
that fits in their number. -/
theorem hexValue_hexDigits (width n : Nat) : hexValue (hexDigits width n) = n % 16 ^ width := by
  induction width generalizing n with
  | zero => simp [hexDigits, hexValue, Nat.mod_one]
  | succ width ih =>
    have digit : hexDigitValue (hexDigit (n % 16)) = n % 16 :=
      hexDigitValue_hexDigit (Nat.mod_lt _ (by decide))
    have value : hexValue (hexDigits (width + 1) n)
        = hexValue (hexDigits width (n / 16)) * 16 + hexDigitValue (hexDigit (n % 16)) := by
      rw [hexDigits, hexValue, List.foldl_append]
      rfl
    rw [value, ih, digit, Nat.pow_succ', Nat.mod_mul, Nat.mul_comm, Nat.add_comm]

theorem hexValue_hexDigits_of_lt {width n : Nat} (fits : n < 16 ^ width) :
    hexValue (hexDigits width n) = n := by
  rw [hexValue_hexDigits, Nat.mod_eq_of_lt fits]

theorem mem_of_mem_hexDigits {width n : Nat} {c : Char} (member : c ∈ hexDigits width n) :
    c ∈ "0123456789ABCDEF".toList := by
  induction width generalizing n with
  | zero => cases member
  | succ width ih =>
    rcases List.mem_append.mp member with before | last
    · exact ih before
    · rw [List.mem_singleton.mp last]
      exact hexDigit_mem (Nat.mod_lt _ (by decide))

theorem not_mem_hex {c : Char} (other : c ∉ "0123456789ABCDEF".toList) (width n : Nat) :
    c ∉ (hex width n).toList := by
  rw [hex, String.toList_ofList]
  exact mt mem_of_mem_hexDigits other

section Hex

variable {width n m : Nat}

theorem hex_inj (hn : n < 16 ^ width) (hm : m < 16 ^ width) :
    hex width n = hex width m ↔ n = m := by
  constructor
  · intro same
    have same := congrArg hexValue (String.ofList_inj.mp same)
    rwa [hexValue_hexDigits_of_lt hn, hexValue_hexDigits_of_lt hm] at same
  · rintro rfl
    rfl

theorem hex_word_inj {v w : Word} : hex 4 v.toNat = hex 4 w.toNat ↔ v = w := by
  rw [hex_inj v.toNat_lt w.toNat_lt, UInt16.toNat_inj]

theorem hex_byte_inj {a b : Byte} : hex 2 a.toNat = hex 2 b.toNat ↔ a = b := by
  rw [hex_inj a.toNat_lt b.toNat_lt, UInt8.toNat_inj]

theorem hex_append_inj {s t : String} :
    hex width n ++ s = hex width m ++ t ↔ hex width n = hex width m ∧ s = t :=
  append_inj_of_length (by rw [length_hex, length_hex])

end Hex

section Decimal

variable {width n m : Nat}

theorem toList_padLeft (width : Nat) (fill : Char) (text : String) :
    (padLeft width fill text).toList
      = List.replicate (width - text.length) fill ++ text.toList := by
  rw [padLeft, String.toList_ofList, List.leftpad, String.length_toList]

theorem length_padLeft (width : Nat) (fill : Char) (text : String) :
    (padLeft width fill text).length = max width text.length := by
  rw [padLeft, String.length_ofList, List.length_leftpad, String.length_toList]

/-- A number that fits fills its numeral up to the width. -/
theorem length_padLeft_repr (fill : Char) (pos : 0 < width) (fits : n < 10 ^ width) :
    (padLeft width fill (Nat.repr n)).length = width := by
  rw [length_padLeft]
  exact Nat.max_eq_left ((Nat.length_repr_le_iff pos).mpr fits)

theorem isDigit_of_mem_repr {c : Char} (member : c ∈ (Nat.repr n).toList) : c.isDigit = true := by
  rw [Nat.toList_repr] at member
  exact Nat.isDigit_of_mem_toDigits (by decide) (by decide) member

theorem not_mem_repr {c : Char} (other : c.isDigit = false) (n : Nat) :
    c ∉ (Nat.repr n).toList := by
  intro member
  rw [isDigit_of_mem_repr member] at other
  cases other

theorem not_mem_padLeft {c fill : Char} {text : String} (ne : c ≠ fill) (other : c ∉ text.toList)
    (width : Nat) : c ∉ (padLeft width fill text).toList := by
  rw [toList_padLeft, List.mem_append, not_or]
  exact ⟨fun member => ne (List.eq_of_mem_replicate member), other⟩

/-- What a numeral is filled up with in front, zeros or anything but digits, does not change the
number that its digits denote. -/
theorem ofDigitChars_padLeft {fill : Char} (neutral : fill = '0' ∨ fill.isDigit = false)
    (width n : Nat) :
    Nat.ofDigitChars 10 ((padLeft width fill (Nat.repr n)).toList.filter Char.isDigit) 0 = n := by
  have digits : (Nat.repr n).toList.filter Char.isDigit = Nat.toDigits 10 n := by
    rw [← Nat.toList_repr, List.filter_eq_self]
    exact fun c => isDigit_of_mem_repr
  rw [toList_padLeft, List.filter_append, digits, Nat.ofDigitChars_append]
  rcases neutral with rfl | other
  · rw [List.filter_replicate_of_pos (by decide), Nat.ofDigitChars_replicate_zero, Nat.mul_zero,
      Nat.ofDigitChars_ten_toDigits]
  · rw [List.filter_replicate_of_neg (by rw [other]; decide), Nat.ofDigitChars_nil,
      Nat.ofDigitChars_ten_toDigits]

theorem padLeft_repr_inj {fill : Char} (neutral : fill = '0' ∨ fill.isDigit = false) :
    padLeft width fill (Nat.repr n) = padLeft width fill (Nat.repr m) ↔ n = m := by
  constructor
  · intro same
    rw [← ofDigitChars_padLeft neutral width n, same, ofDigitChars_padLeft neutral width m]
  · rintro rfl
    rfl

end Decimal

section Reading

variable {digits : List Char} {text : String}

/-- A numeral of the number: its decimal digits, which may have zeros in front, and in front of
them a plus sign. -/
def Denotes (text : String) (n : Nat) : Prop :=
  ∃ width, text = padLeft width '0' (Nat.repr n) ∨ text = "+" ++ padLeft width '0' (Nat.repr n)

theorem digit?_of_isDigit {c : Char} (isDigit : c.isDigit = true) :
    digit? c = some (c.toNat - 48) := by
  rw [digit?, if_pos]
  simpa [Char.isDigit, Char.le_def] using isDigit

theorem appendDigits?_eq (allDigits : ∀ c ∈ digits, c.isDigit = true) (read : Nat) :
    appendDigits? read digits = some (Nat.ofDigitChars 10 digits read) := by
  induction digits generalizing read with
  | nil => rfl
  | cons c rest ih =>
    simp only [appendDigits?, digit?_of_isDigit (allDigits c List.mem_cons_self)]
    rw [ih fun c member => allDigits c (List.mem_cons_of_mem _ member), Nat.ofDigitChars_cons,
      Nat.mul_comm]
    rfl

theorem isDigit_of_mem_padLeft {c : Char} {width n : Nat}
    (member : c ∈ (padLeft width '0' (Nat.repr n)).toList) : c.isDigit = true := by
  rw [toList_padLeft, List.mem_append] at member
  rcases member with zero | digit
  · rw [List.eq_of_mem_replicate zero]
    rfl
  · exact isDigit_of_mem_repr digit

/-- A numeral has a first digit, which is not a plus sign. -/
theorem exists_cons_padLeft (width n : Nat) :
    ∃ c rest, (padLeft width '0' (Nat.repr n)).toList = c :: rest ∧ c ≠ '+' := by
  cases split : (padLeft width '0' (Nat.repr n)).toList with
  | nil =>
    rw [toList_padLeft, List.append_eq_nil_iff, Nat.toList_repr] at split
    exact absurd split.2 Nat.toDigits_ne_nil
  | cons c rest =>
    refine ⟨c, rest, rfl, ?_⟩
    rintro rfl
    exact absurd (isDigit_of_mem_padLeft (split ▸ List.mem_cons_self)) (by decide)

theorem decimal?_padLeft (width n : Nat) :
    decimal? (padLeft width '0' (Nat.repr n)).toList = some n := by
  have allDigits (c : Char) (member : c ∈ (padLeft width '0' (Nat.repr n)).toList) :
      c.isDigit = true := isDigit_of_mem_padLeft member
  have value := ofDigitChars_padLeft (Or.inl rfl) width n
  rw [List.filter_eq_self.mpr allDigits] at value
  obtain ⟨c, rest, split, -⟩ := exists_cons_padLeft width n
  rw [split] at allDigits value ⊢
  exact (appendDigits?_eq allDigits 0).trans (congrArg some value)

/-- The characters of a numeral behind its plus sign, if it has one. -/
def unsigned : List Char → List Char
  | '+' :: digits => digits
  | digits => digits

theorem uint64?_eq_some {n : UInt64} (number : decimal? (unsigned text.toList) = some n.toNat) :
    uint64? text = some n := by
  rw [uint64?]
  split
  · next m read =>
    obtain rfl : n.toNat = m := Option.some.inj (number.symm.trans read)
    rw [if_pos n.toNat_lt_size, UInt64.ofNat_toNat]
  · next unread => cases number.symm.trans unread

/-- The number of a numeral is read back, up to the largest one that there is. -/
theorem uint64?_of_denotes {n : UInt64} (denotes : Denotes text n.toNat) :
    uint64? text = some n := by
  refine uint64?_eq_some ?_
  obtain ⟨width, rfl | rfl⟩ := denotes
  · obtain ⟨c, rest, split, other⟩ := exists_cons_padLeft width n.toNat
    have digits : unsigned (c :: rest) = c :: rest := by
      rw [unsigned]
      rintro _ ⟨⟩
      exact other rfl
    rw [split, digits, ← split, decimal?_padLeft]
  · rw [String.toList_append]
    exact decimal?_padLeft width n.toNat

end Reading

end ChipEight.Text
