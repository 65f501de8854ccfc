import ChipEight.Word
/-!
# Keypad

The sixteen keys of the machine and which of them are held.

## Main definitions

- `Keypad` — for each key whether it is held
- `Keypad.press`, `Keypad.release` — one key changed
- `Keypad.holds` — whether the key with a given number is held
- `Keypad.first?` — the held key with the lowest number
-/

namespace ChipEight

/-- For each of the keys `0` to `F` whether it is held. -/
abbrev Keypad := Vector Bool 16

namespace Keypad

def released : Keypad :=
  Vector.replicate 16 false

/-- The keypad with one key held in addition. A number that names no key
changes nothing. -/
def press (keypad : Keypad) (key : Byte) : Keypad :=
  keypad.setIfInBounds key.toNat true

/-- The keypad with one key let go. A number that names no key changes nothing. -/
def release (keypad : Keypad) (key : Byte) : Keypad :=
  keypad.setIfInBounds key.toNat false

theorem getElem_press (keypad : Keypad) (key : Byte) (k : Nat) (hk : k < 16) :
    (keypad.press key)[k] = if key.toNat = k then true else keypad[k] :=
  Vector.getElem_setIfInBounds hk

theorem getElem_release (keypad : Keypad) (key : Byte) (k : Nat) (hk : k < 16) :
    (keypad.release key)[k] = if key.toNat = k then false else keypad[k] :=
  Vector.getElem_setIfInBounds hk

/-- Whether a key is held; a number that names no key is not. -/
def holds (keypad : Keypad) (key : Byte) : Bool :=
  if h : key.toNat < 16 then keypad[key.toNat] else false

theorem holds_eq (keypad : Keypad) (key : Byte) :
    keypad.holds key = (keypad[key.toNat]? == some true) := by
  rw [holds]
  split
  · next lt => rw [Vector.getElem?_eq_getElem lt]; cases keypad[key.toNat] <;> rfl
  · next ge => rw [Vector.getElem?_eq_none (Nat.le_of_not_lt ge)]; rfl

def held (keypad : Keypad) : List Nibble :=
  (List.finRange 16).filter fun key => keypad[key]

@[simp] theorem mem_held {keypad : Keypad} {key : Nibble} :
    key ∈ keypad.held ↔ keypad[key] = true := by
  simp [held]

/-- The held key with the lowest number, if one is held. -/
def first? (keypad : Keypad) : Option Nibble :=
  (List.finRange 16).find? fun key => keypad[key]

theorem first?_eq_some_iff {keypad : Keypad} {key : Nibble} :
    keypad.first? = some key ↔
      keypad[key] = true ∧ ∀ lower : Nibble, lower < key → keypad[lower] = false := by
  rw [first?, List.find?_eq_some_iff_getElem]
  simp only [List.getElem_finRange, List.length_finRange]
  refine and_congr_right fun _ => ⟨?_, fun others => ?_⟩
  · rintro ⟨i, hi, rfl, others⟩ lower below
    simpa using others lower.val below
  · exact ⟨key.val, key.isLt, rfl, fun j below => by simpa using others ⟨j, by omega⟩ below⟩

theorem first?_eq_none_iff {keypad : Keypad} :
    keypad.first? = none ↔ ∀ key : Nibble, keypad[key] = false := by
  simp [first?, List.find?_eq_none]

end Keypad

end ChipEight
