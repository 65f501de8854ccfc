import ChipEight.Proofs.Core.Drawing
import Mathlib.Algebra.BigOperators.Group.List.Lemmas
import Mathlib.Algebra.BigOperators.Ring.List
import Mathlib.Algebra.Ring.Nat
/-!
# Sprites over one another

Drawings executed one after the other. A drawing adds a mask to the screen, modulo two and cell
by cell, and as long as it takes its place from other registers than the flag, no drawing before
it has a say in what its mask is. So neither the order of the drawings nor a pair of equal ones
can be seen on the screen.

## Main definitions

- `Instruction.executeAll` — instructions one after the other
- `Drawing`, `Drawing.Steady` — the operands of a drawing, and those that no drawing changes
- `Core.mask` — the cells that a drawing inverts
- `Core.Drawn` — what a drawing leaves

## Main statements

- `Drawing.Steady.drawn` — one drawing
- `Drawing.executeAll_of_steady` — any number of drawings
- `Drawing.foldl_mask_of_even` — drawings that cancel each other
- `Core.drawings_cancel` — order, pairs and the flag behind a second drawing
-/

namespace ChipEight

/-- Instructions executed one after the other. An instruction that fails or waits ends the list
early. -/
def Instruction.executeAll (dialect : Dialect) (byte : Byte) :
    Core → List Instruction → Except Fault Outcome
  | core, [] => .ok (.next core)
  | core, instruction :: rest =>
    match instruction.execute dialect byte core with
    | .ok (.next after) => executeAll dialect byte after rest
    | ended => ended

/-- The operands of a drawing. -/
structure Drawing where
  x : Register
  y : Register
  height : Nibble
  deriving DecidableEq, Repr

def Drawing.instruction (drawing : Drawing) : Instruction :=
  .draw drawing.x drawing.y drawing.height

/-- The sprite lies in memory, and the flag register, which drawings write, does not tell where
it goes. -/
structure Drawing.Steady (core : Core) (drawing : Drawing) : Prop where
  x_ne_flag : drawing.x ≠ Register.flag
  y_ne_flag : drawing.y ≠ Register.flag
  inside : core.index.toNat + drawing.height.val ≤ 4096

namespace Core

/-- Whether one of the bits that are set in the sprite of a drawing falls on the pixel. -/
def mask (core : Core) (drawing : Drawing) (p : Pixel) : Bool :=
  (List.range drawing.height.val).any fun row =>
    (List.range 8).any fun bit =>
      core.spriteBit row bit && decide (p =
        Pixel.wrap ((core.get drawing.x).toNat + bit) ((core.get drawing.y).toNat + row))

/-- What a drawing leaves of the screen, and of all that a drawing looks at. -/
structure Drawn (core : Core) (drawing : Drawing) (after : Core) : Prop where
  cell : ∀ p, after.screen.cell p = core.screen.cell p ^^^ Byte.ofBool (core.mask drawing p)
  flag : (∀ p, core.screen.cell p = 0 ∨ core.screen.cell p = 1) →
    (after.get Register.flag = 1 ↔ ∃ p, core.mask drawing p = true ∧ core.screen.cell p = 1)
  get : ∀ r, r ≠ Register.flag → after.get r = core.get r
  index : after.index = core.index
  memory : after.memory = core.memory

variable {core after : Core} {drawing other : Drawing}

theorem mask_iff_covers {p : Pixel} :
    core.mask drawing p = true ↔
      ∃ row bit, core.Covers drawing.x drawing.y drawing.height row bit p := by
  simp only [mask, List.any_eq_true, List.mem_range, Bool.and_eq_true, decide_eq_true_eq,
    covers_iff]
  constructor
  · rintro ⟨row, row_lt, bit, bit_lt, isSet, place⟩
    exact ⟨row, bit, row_lt, bit_lt, isSet, place⟩
  · rintro ⟨row, bit, row_lt, bit_lt, isSet, place⟩
    exact ⟨row, row_lt, bit, bit_lt, isSet, place⟩

/-- A bit that is set falls on some pixel. -/
theorem exists_mask_of_spriteBit {row bit : Nat} (row_lt : row < drawing.height.val)
    (bit_lt : bit < 8) (isSet : core.spriteBit row bit = true) :
    ∃ p, core.mask drawing p = true :=
  ⟨_, mask_iff_covers.mpr ⟨row, bit, covers_iff.mpr ⟨row_lt, bit_lt, isSet, rfl⟩⟩⟩

namespace Drawn

theorem mask_eq (drawn : core.Drawn drawing after) (steady : other.Steady core) (p : Pixel) :
    after.mask other p = core.mask other p := by
  simp only [mask, spriteBit, drawn.index, drawn.memory, drawn.get _ steady.x_ne_flag,
    drawn.get _ steady.y_ne_flag]

theorem steady (drawn : core.Drawn drawing after) (steady : other.Steady core) :
    other.Steady after :=
  ⟨steady.x_ne_flag, steady.y_ne_flag, by rw [drawn.index]; exact steady.inside⟩

theorem cell_eq (drawn : core.Drawn drawing after) (p : Pixel) :
    after.screen.cell p
      = if core.mask drawing p then core.screen.cell p ^^^ 1 else core.screen.cell p := by
  rw [drawn.cell]
  cases core.mask drawing p with
  | true => rfl
  | false => exact UInt8.xor_zero

/-- A screen of zeros and ones stays one. -/
theorem bit (drawn : core.Drawn drawing after)
    (bit : ∀ p, core.screen.cell p = 0 ∨ core.screen.cell p = 1) (p : Pixel) :
    after.screen.cell p = 0 ∨ after.screen.cell p = 1 := by
  rw [drawn.cell_eq]
  split
  · rcases bit p with dark | lit
    · exact Or.inr (by rw [dark]; rfl)
    · exact Or.inl (by rw [lit]; rfl)
  · exact bit p

/-- Where the mask of a drawing is set, what is lit behind it was dark before it. -/
theorem cell_eq_one_iff (drawn : core.Drawn drawing after) {p : Pixel}
    (masked : core.mask drawing p = true)
    (bit : core.screen.cell p = 0 ∨ core.screen.cell p = 1) :
    after.screen.cell p = 1 ↔ core.screen.cell p = 0 := by
  rw [drawn.cell_eq, if_pos masked]
  rcases bit with dark | lit
  · rw [dark]; decide
  · rw [lit]; decide

end Drawn

end Core

namespace Drawing

variable {core after : Core} {drawing : Drawing} {drawings others : List Drawing}

/-- A sprite that lies in memory is drawn. -/
theorem Steady.drawn (steady : drawing.Steady core) :
    ∃ after, (∀ dialect byte,
        drawing.instruction.execute dialect byte core = .ok (.next after)) ∧
      core.Drawn drawing after := by
  have located : Span.locate core.index drawing.height.val
      = .ok ⟨core.index.toNat, steady.inside⟩ := Span.locate_eq_ok_iff.mpr ⟨steady.inside, rfl⟩
  let pixels := Sprite.pixels (core.get drawing.x).toNat (core.get drawing.y).toNat
    (core.memory.read ⟨core.index.toNat, steady.inside⟩).toList
  have pixel (p : Pixel) : p ∈ pixels ↔ core.mask drawing p = true :=
    (Core.mem_pixels_iff_covers located p).trans Core.mask_iff_covers.symm
  have distinct : pixels.Nodup := Sprite.nodup_pixels_toList _ _ _
  let drawn : Core := { core with screen := core.screen.flipAll pixels, redraw := true }
  let after : Core := (drawn.set Register.flag (core.screen.overlap pixels)).next
  have get (r : Register) : after.get r
      = if Register.flag = r then core.screen.overlap pixels else core.get r :=
    Core.get_set drawn _ _ _
  refine ⟨after, fun dialect byte => ?_, ?_, fun bit => ?_, fun r other => ?_, rfl, rfl⟩
  · simp only [instruction, Instruction.execute, Core.draw, located]
    rfl
  · intro p
    refine (Screen.cell_flipAll_of_nodup _ distinct p).trans ?_
    cases inverted : core.mask drawing p with
    | true => exact if_pos ((pixel p).mpr inverted)
    | false =>
      have outside : p ∉ pixels := by rw [pixel, inverted]; exact Bool.false_ne_true
      rw [if_neg outside]
      exact UInt8.xor_zero.symm
  · have collided : core.screen.overlap pixels = 1 ↔ ∃ p ∈ pixels, core.screen.cell p = 1 := by
      rw [Screen.overlap_eq bit]
      simp
    rw [get, if_pos rfl]
    exact collided.trans (exists_congr fun p => and_congr_left' (pixel p))
  · rw [get, if_neg other.symm]

/-- Drawings add their masks to the screen, one after the other; what they are is told by the
core before the first of them. -/
theorem executeAll_of_steady (steady : ∀ drawing ∈ drawings, drawing.Steady core) :
    ∃ after, (∀ dialect byte,
        Instruction.executeAll dialect byte core (drawings.map instruction)
          = .ok (.next after)) ∧
      ∀ p, after.screen.cell p = drawings.foldl
        (fun cell drawing => cell ^^^ Byte.ofBool (core.mask drawing p)) (core.screen.cell p) := by
  induction drawings generalizing core with
  | nil => exact ⟨core, fun _ _ => rfl, fun _ => rfl⟩
  | cons drawing rest ih =>
    obtain ⟨middle, ran, drawn⟩ := (steady drawing List.mem_cons_self).drawn
    have others (other : Drawing) (member : other ∈ rest) : other.Steady core :=
      steady other (List.mem_cons_of_mem _ member)
    obtain ⟨after, ranAll, cells⟩ := ih fun other member => drawn.steady (others other member)
    refine ⟨after, fun dialect byte => ?_, fun p => ?_⟩
    · rw [List.map_cons, Instruction.executeAll, ran]
      exact ranAll dialect byte
    · rw [cells, drawn.cell, List.foldl_cons]
      exact List.foldl_ext _ _ _ fun cell other member => by
        rw [drawn.mask_eq (others other member)]

/-- A cell is inverted as often as it belongs to a mask. -/
theorem foldl_mask (drawings : List Drawing) (core : Core) (p : Pixel) (cell : Byte) :
    drawings.foldl (fun cell drawing => cell ^^^ Byte.ofBool (core.mask drawing p)) cell
      = if drawings.countP (core.mask · p) % 2 = 1 then cell ^^^ 1 else cell := by
  induction drawings generalizing cell with
  | nil => rfl
  | cons drawing rest ih =>
    rw [List.foldl_cons, ih, List.countP_cons]
    cases core.mask drawing p with
    | false =>
      have same : cell ^^^ Byte.ofBool false = cell := UInt8.xor_zero
      rw [same, if_neg Bool.false_ne_true, Nat.add_zero]
    | true =>
      have once : cell ^^^ Byte.ofBool true = cell ^^^ 1 := rfl
      have twice : cell ^^^ 1 ^^^ 1 = cell := by
        rw [UInt8.xor_assoc, UInt8.xor_self, UInt8.xor_zero]
      rw [once, twice, if_pos rfl]
      rcases Nat.mod_two_eq_zero_or_one (rest.countP (core.mask · p)) with even | odd
      · rw [if_neg (by omega), if_pos (by omega)]
      · rw [if_pos odd, if_neg (by omega)]

/-- The masks can be added in any order. -/
theorem foldl_mask_of_perm (perm : others.Perm drawings) (core : Core) (p : Pixel) (cell : Byte) :
    others.foldl (fun cell drawing => cell ^^^ Byte.ofBool (core.mask drawing p)) cell
      = drawings.foldl (fun cell drawing => cell ^^^ Byte.ofBool (core.mask drawing p)) cell := by
  rw [foldl_mask, foldl_mask, perm.countP_eq]

/-- Masks that come an even number of times each cancel out. -/
theorem foldl_mask_of_even (even : ∀ drawing, drawings.count drawing % 2 = 0) (core : Core)
    (p : Pixel) (cell : Byte) :
    drawings.foldl (fun cell drawing => cell ^^^ Byte.ofBool (core.mask drawing p)) cell
      = cell := by
  have evenly : 2 ∣ drawings.countP (core.mask · p) := by
    rw [← List.sum_map_count_dedup_filter_eq_countP]
    refine List.dvd_sum fun count member => ?_
    obtain ⟨drawing, -, rfl⟩ := List.mem_map.mp member
    exact Nat.dvd_of_mod_eq_zero (even drawing)
  rw [foldl_mask, if_neg (by omega)]

/-- The same drawing a second time takes the first one back, and the flag tells whether a cell
under the sprite was dark before the first. -/
theorem Steady.drawn_twice (steady : drawing.Steady core) :
    ∃ after, (∀ dialect byte,
        Instruction.executeAll dialect byte core [drawing.instruction, drawing.instruction]
          = .ok (.next after)) ∧
      after.screen = core.screen ∧
      ((∀ p, core.screen.cell p = 0 ∨ core.screen.cell p = 1) →
        (after.get Register.flag = 1 ↔
          ∃ p, core.mask drawing p = true ∧ core.screen.cell p = 0)) := by
  obtain ⟨middle, first, drawn⟩ := steady.drawn
  obtain ⟨after, second, again⟩ := (drawn.steady steady).drawn
  have mask (p : Pixel) : middle.mask drawing p = core.mask drawing p := drawn.mask_eq steady p
  refine ⟨after, fun dialect byte => ?_, Screen.ext_cell fun p => ?_, fun bit => ?_⟩
  · simp only [Instruction.executeAll, first, second]
  · rw [again.cell, drawn.cell, mask, UInt8.xor_assoc, UInt8.xor_self, UInt8.xor_zero]
  · rw [again.flag (drawn.bit bit)]
    refine exists_congr fun p => ?_
    rw [mask]
    exact and_congr_right fun masked => drawn.cell_eq_one_iff masked (bit p)

end Drawing

/-- Drawings that take their places from other registers than the flag, with sprites that lie in
memory, all run, and the screen behind them is the one before them with the mask of each added
modulo two. So it is the same in whatever order they come, and the same as before if each of
them comes an even number of times. On a screen of zeros and ones the flag behind a drawing and
its repetition is set exactly if a cell under the sprite was dark before, which is so for any
sprite that is not empty on cells that were all dark. -/
theorem Core.drawings_cancel (core : Core) (drawings : List Drawing)
    (steady : ∀ drawing ∈ drawings, drawing.Steady core) :
    ∃ after, (∀ dialect byte, Instruction.executeAll dialect byte core
        (drawings.map Drawing.instruction) = .ok (.next after)) ∧
      (∀ p, after.screen.cell p = drawings.foldl
        (fun cell drawing => cell ^^^ Byte.ofBool (core.mask drawing p)) (core.screen.cell p)) ∧
      (∀ others : List Drawing, others.Perm drawings → ∃ after', (∀ dialect byte,
        Instruction.executeAll dialect byte core (others.map Drawing.instruction)
          = .ok (.next after')) ∧ after'.screen = after.screen) ∧
      ((∀ drawing, drawings.count drawing % 2 = 0) → after.screen = core.screen) ∧
      ∀ drawing ∈ drawings, ∃ twice, (∀ dialect byte,
        Instruction.executeAll dialect byte core [drawing.instruction, drawing.instruction]
          = .ok (.next twice)) ∧
        twice.screen = core.screen ∧
        ((∀ p, core.screen.cell p = 0 ∨ core.screen.cell p = 1) →
          (twice.get Register.flag = 1 ↔
            ∃ p, core.mask drawing p = true ∧ core.screen.cell p = 0) ∧
          ((∃ row bit, row < drawing.height.val ∧ bit < 8 ∧ core.spriteBit row bit = true) →
            (∀ p, core.mask drawing p = true → core.screen.cell p = 0) →
              twice.get Register.flag = 1)) := by
  obtain ⟨after, ran, cells⟩ := Drawing.executeAll_of_steady steady
  refine ⟨after, ran, cells, fun others perm => ?_, fun even => ?_, fun drawing member => ?_⟩
  · obtain ⟨after', ran', cells'⟩ := Drawing.executeAll_of_steady
      fun drawing member => steady drawing (perm.mem_iff.mp member)
    refine ⟨after', ran', Screen.ext_cell fun p => ?_⟩
    rw [cells', cells, Drawing.foldl_mask_of_perm perm]
  · refine Screen.ext_cell fun p => ?_
    rw [cells, Drawing.foldl_mask_of_even even]
  · obtain ⟨twice, ranTwice, same, flag⟩ := (steady drawing member).drawn_twice
    refine ⟨twice, ranTwice, same, fun bit => ⟨flag bit, ?_⟩⟩
    rintro ⟨row, place, row_lt, place_lt, isSet⟩ dark
    obtain ⟨p, masked⟩ := Core.exists_mask_of_spriteBit row_lt place_lt isSet
    exact (flag bit).mpr ⟨p, masked, dark p masked⟩

/-- A digit round the right and the bottom edge, another one over it, and the first one again: the
cell that both digits cover stays lit, whichever of the three drawings comes first. -/
theorem Core.drawings_cancel_round_both_edges :
    let core : Core := { Core.fresh with
      registers := (Core.fresh.registers.set 1 62).set 2 30 }
    let first : Drawing := ⟨0x1, 0x2, 5⟩
    let other : Drawing := ⟨0x1, 0x0, 5⟩
    (∀ drawing ∈ [first, other, first], drawing.Steady core) ∧
      core.mask first ⟨62, 0⟩ = true ∧ core.mask other ⟨62, 0⟩ = true ∧
      ∃ after after',
        Instruction.executeAll .modern 0 core
          ([first, other, first].map Drawing.instruction) = .ok (.next after) ∧
        Instruction.executeAll .modern 0 core
          ([other, first, first].map Drawing.instruction) = .ok (.next after') ∧
        after.screen.cell ⟨62, 0⟩ = 1 ∧ after'.screen = after.screen := by
  intro core first other
  have steady : ∀ drawing ∈ [first, other, first], drawing.Steady core := by
    simp only [List.forall_mem_cons, List.not_mem_nil, false_implies, implies_true, and_true]
    have one : first.Steady core := ⟨by decide, by decide, by decide⟩
    have two : other.Steady core := ⟨by decide, by decide, by decide⟩
    exact ⟨one, two, one⟩
  have covers : core.mask first ⟨62, 0⟩ = true := by decide +kernel
  have covers' : core.mask other ⟨62, 0⟩ = true := by decide +kernel
  obtain ⟨after, ran, cells, permuted, -, -⟩ := core.drawings_cancel [first, other, first] steady
  obtain ⟨after', ran', same⟩ := permuted [other, first, first] (List.Perm.swap _ _ _)
  refine ⟨steady, covers, covers', after, after', ran .modern 0, ran' .modern 0, ?_, same⟩
  rw [cells]
  simp only [List.foldl_cons, List.foldl_nil, covers, covers']
  rw [show core.screen = Screen.blank from rfl, Screen.cell_blank]
  decide

end ChipEight
