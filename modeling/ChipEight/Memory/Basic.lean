import ChipEight.Fault
/-!
# Memory

The 4096 bytes of addressable memory, and the only way to reach several of them:
a span that is known to lie inside.

## Main definitions

- `Memory` — 4096 bytes
- `Span` — a range of cells with the proof that it fits
- `Span.locate` — the span at an address, or the fault that names the first
  address outside
- `Memory.read`, `Memory.write` — the bytes of a span
- `overwrite` — consecutive cells of a vector replaced by a list

## Design notes

A `Span` carries its bound, so reading and writing are total and cannot be
partial: the one check is made before anything changes.
-/

namespace ChipEight

/-- Replaces the cells from `start` on by the members of a list; what would
fall behind the last cell is dropped. -/
def overwrite {α : Type} {n : Nat} (cells : Vector α n) (start : Nat) : List α → Vector α n
  | [] => cells
  | x :: rest => overwrite (cells.setIfInBounds start x) (start + 1) rest

/-- A cell of an overwritten vector is the list member that fell on it, if one did. -/
theorem getElem_overwrite {α : Type} {n : Nat} (cells : Vector α n) (start : Nat)
    (new : List α) (k : Nat) (hk : k < n) :
    (overwrite cells start new)[k] =
      if h : start ≤ k ∧ k - start < new.length then new[k - start] else cells[k] := by
  induction new generalizing cells start with
  | nil => simp [overwrite]
  | cons x rest ih =>
    rw [overwrite, ih, Vector.getElem_setIfInBounds hk]
    by_cases h₁ : start = k
    · subst h₁
      rw [dif_neg (by omega), if_pos rfl, dif_pos (by simp)]
      simp
    · by_cases h₂ : start + 1 ≤ k ∧ k - (start + 1) < rest.length
      · rw [dif_pos h₂, dif_pos (by simp only [List.length_cons]; omega)]
        have : k - start = (k - (start + 1)) + 1 := by omega
        simp [this]
      · rw [dif_neg h₂, if_neg h₁, dif_neg (by simp only [List.length_cons]; omega)]

/-- The cells on which no member of the list falls stay as they were. -/
theorem getElem?_overwrite_of_outside {α : Type} {n : Nat} (cells : Vector α n) {start : Nat}
    {new : List α} {k : Nat} (outside : k < start ∨ start + new.length ≤ k) :
    (overwrite cells start new)[k]? = cells[k]? := by
  by_cases hk : k < n
  · rw [Vector.getElem?_eq_getElem hk, Vector.getElem?_eq_getElem hk, getElem_overwrite,
      dif_neg (by omega)]
  · rw [Vector.getElem?_eq_none (by omega), Vector.getElem?_eq_none (by omega)]

/-- The members of the list stand in the cells from `start` on, if all of them have one. -/
theorem getElem?_overwrite_add {α : Type} {n : Nat} (cells : Vector α n) {start : Nat}
    {new : List α} (inside : start + new.length ≤ n) {k : Nat} (hk : k < new.length) :
    (overwrite cells start new)[start + k]? = new[k]? := by
  have bound : start + k < n := by omega
  rw [Vector.getElem?_eq_getElem bound, getElem_overwrite, dif_pos (by omega)]
  simp [hk]

abbrev Memory.size : Nat := 4096

abbrev Memory := Vector Byte Memory.size

/-- A range of `length` cells that lies entirely in memory. -/
structure Span (length : Nat) where
  /-- The first address of the range. -/
  start : Nat
  fits : start + length ≤ Memory.size
  deriving DecidableEq, Repr

/-- The span of `length` cells at an address. When it reaches past the end of
memory, the fault names the first address outside: the end of memory itself, or
the start if even that lies beyond. -/
def Span.locate (address : Word) (length : Nat) : Except Fault (Span length) :=
  if fits : address.toNat + length ≤ Memory.size then
    .ok ⟨address.toNat, fits⟩
  else
    .error (.addressOutOfRange (max (UInt16.ofNat Memory.size) address))

namespace Memory

def read {length : Nat} (memory : Memory) (span : Span length) : Vector Byte length :=
  Vector.ofFn fun k =>
    memory[(⟨span.start + k.val, by have := span.fits; omega⟩ : Fin size)]

theorem getElem_read {length : Nat} (memory : Memory) (span : Span length) (k : Nat)
    (hk : k < length) :
    (memory.read span)[k]
      = memory[(⟨span.start + k, by have := span.fits; omega⟩ : Fin size)] := by
  simp [read]

/-- The bytes of a span are those of memory from its start on, and no more. -/
theorem getElem?_toList_read {length : Nat} (memory : Memory) (span : Span length) (k : Nat) :
    (memory.read span).toList[k]? = if k < length then memory[span.start + k]? else none := by
  split
  · next lt =>
    have bound : span.start + k < size := by
      have := span.fits
      omega
    rw [Vector.getElem?_toList, Vector.getElem?_eq_getElem lt, Vector.getElem?_eq_getElem bound,
      getElem_read]
    rfl
  · next ge => simpa using ge

def write {length : Nat} (memory : Memory) (span : Span length) (bytes : Vector Byte length) :
    Memory :=
  overwrite memory span.start bytes.toList

/-- Writing changes the cells of the span and no others. -/
theorem getElem_write {length : Nat} (memory : Memory) (span : Span length)
    (bytes : Vector Byte length) (k : Nat) (hk : k < size) :
    (memory.write span bytes)[k] =
      if h : span.start ≤ k ∧ k - span.start < length then bytes[k - span.start]
      else memory[k] := by
  rw [write, getElem_overwrite]
  simp

@[simp] theorem read_write {length : Nat} (memory : Memory) (span : Span length)
    (bytes : Vector Byte length) : (memory.write span bytes).read span = bytes := by
  apply Vector.ext
  intro k hk
  simp only [read, Vector.getElem_ofFn, Fin.getElem_fin, getElem_write]
  rw [dif_pos (by omega)]
  congr 1
  omega

end Memory

end ChipEight
