import ChipEight.Proofs.Core.Overlay
import ChipEight.Proofs.Core.Transfer
import ChipEight.Proofs.Machine.Fault
import Mathlib.Order.Bounds.Defs
import Mathlib.Order.Interval.Set.Defs
/-!
# The index and the memory behind it

Where the index points, and what of memory can be reached from there. A window of memory is located
if it ends inside memory, and otherwise the first address outside is named. Sums that become the
index wrap around at the end of memory, however many are added up. The index of a glyph is small
enough for the whole glyph to be drawn.

## Main definitions

- `Word.window` — the addresses of so many bytes
- `Core.addend` — the sum that registers add to the index
- `Core.PointsToGlyph` — what is left where the index was set to a glyph

## Main statements

- `Span.locate_of_inside`, `Span.locate_of_outside` — windows inside memory, and all others
- `Core.executeAll_addIndex`, `Machine.index_steps_of_additions` — any number of additions
- `Core.pointsToGlyph`, `Core.PointsToGlyph.draw` — a glyph and its drawing
- `Machine.index_arithmetic` — all of these
-/

namespace ChipEight

/-- The addresses of so many bytes from an address on, whether they lie in memory or not. -/
def Word.window (address : Word) (length : Nat) : Set Nat :=
  Set.Ico address.toNat (address.toNat + length)

namespace Span

variable {address : Word} {length : Nat}

/-- A window that ends inside memory is located, and its bytes are read. -/
theorem locate_of_inside (inside : address.toNat + length ≤ 4096) :
    ∃ span, locate address length = .ok span ∧ span.start = address.toNat ∧
      (∀ a ∈ address.window length, a < 4096) ∧
      ∀ memory : Memory, memory.HoldsBytes address.toNat (memory.read span).toList := by
  refine ⟨⟨address.toNat, inside⟩, locate_eq_ok_iff.mpr ⟨inside, rfl⟩, rfl, fun a member => ?_,
    fun memory => memory.holdsBytes_read _⟩
  exact Nat.lt_of_lt_of_le member.2 inside

/-- Any other window is refused. If it has an address at all, the fault names the lowest one that
lies outside. -/
theorem locate_of_outside (outside : 4096 < address.toNat + length) :
    ∃ first : Word, locate address length = .error (.addressOutOfRange first) ∧
      first.toNat = max 4096 address.toNat ∧
      (0 < length → IsLeast {a ∈ address.window length | 4096 ≤ a} first.toNat) := by
  have value : (max 4096 address).toNat = max 4096 address.toNat := Word.toNat_max 4096 address
  refine ⟨max 4096 address, locate_eq_error_iff.mpr ⟨outside, rfl⟩, value, fun some => ?_⟩
  rw [value]
  refine ⟨⟨⟨Nat.le_max_right _ _, ?_⟩, Nat.le_max_left _ _⟩, ?_⟩
  · exact Nat.max_lt.mpr ⟨outside, Nat.lt_add_of_pos_right some⟩
  · rintro a ⟨⟨from_start, -⟩, beyond⟩
    exact Nat.max_le.mpr ⟨beyond, from_start⟩

end Span

namespace Core

/-- The sum of the bytes in some registers. -/
def addend (core : Core) (registers : List Register) : Nat :=
  (registers.map fun x => (core.get x).toNat).sum

variable {core after : Core} {registers : List Register}

/-- The sum wraps first at the size of a word and then at that of memory, which divides it. -/
theorem toNat_index_addIndex (x : Register) (core : Core) :
    (core.addIndex x).index.toNat = (core.index.toNat + (core.get x).toNat) % 4096 := by
  show ((core.index + (core.get x).toUInt16) % 4096).toNat = _
  rw [Word.toNat_mod_size, UInt16.toNat_add, UInt8.toNat_toUInt16]
  omega

theorem index_addIndex_lt (x : Register) (core : Core) : (core.addIndex x).index.toNat < 4096 := by
  rw [toNat_index_addIndex]
  exact Nat.mod_lt _ (by decide)

/-- An addition in front of others. -/
theorem addend_cons_mod (x : Register) (core : Core) (registers : List Register) :
    ((core.index.toNat + (core.get x).toNat) % 4096 + core.addend registers) % 4096
      = (core.index.toNat + core.addend (x :: registers)) % 4096 := by
  rw [Nat.mod_add_mod, addend, addend, List.map_cons, List.sum_cons, Nat.add_assoc]

/-- Additions change nothing but the index and the program counter, and so none of them has a say
in what the others add. An index outside memory is brought inside by the first of them. -/
theorem executeAll_addIndex (registers : List Register) (core : Core) :
    ∃ after, (∀ dialect byte,
        Instruction.executeAll dialect byte core (registers.map .addIndex) = .ok (.next after)) ∧
      (registers ≠ [] ∨ core.index.toNat < 4096 →
        after.index.toNat = (core.index.toNat + core.addend registers) % 4096) ∧
      after = { core with
        index := after.index, pc := core.pc + UInt16.ofNat (2 * registers.length) } := by
  induction registers generalizing core with
  | nil =>
    refine ⟨core, fun _ _ => rfl, fun inside => ?_, ?_⟩
    · exact (Nat.mod_eq_of_lt (inside.resolve_left fun some => some rfl)).symm
    · have stays : core.pc + UInt16.ofNat (2 * 0) = core.pc := UInt16.add_zero core.pc
      rw [List.length_nil, stays]
  | cons x rest ih =>
    obtain ⟨after, ran, index, others⟩ := ih (core.addIndex x)
    refine ⟨after, ran, fun _ => ?_, others.trans ?_⟩
    · rw [← addend_cons_mod, ← toNat_index_addIndex]
      exact index (Or.inr (index_addIndex_lt x core))
    · have pc : (core.addIndex x).pc + UInt16.ofNat (2 * rest.length)
          = core.pc + UInt16.ofNat (2 * (x :: rest).length) := by
        rw [List.length_cons, Nat.mul_succ, Nat.add_comm, UInt16.ofNat_add, ← UInt16.add_assoc]
        rfl
      rw [pc]
      rfl

/-- What is left where the index was set to the glyph of the low digit of a register. -/
structure PointsToGlyph (core : Core) (x : Register) (after : Core) : Prop where
  index : after.index.toNat = 5 * ((core.get x).toNat % 16)
  /-- All five bytes of the glyph lie inside the font. -/
  inside : after.index.toNat + 5 ≤ Font.glyphs.length
  /-- Where the font is still in its place, they are those of the digit. -/
  glyph : core.memory.HoldsBytes 0 Font.glyphs → after.memory.HoldsBytes after.index.toNat
    ((Font.glyphs.drop (5 * ((core.get x).toNat % 16))).take 5)
  /-- No other part of the core has changed. -/
  rest : after = { core with index := after.index, pc := core.pc + 2 }

theorem pointsToGlyph (x : Register) (core : Core) : core.PointsToGlyph x (core.pointGlyph x) := by
  have digit : (core.get x).toNat % 16 < 16 := Nat.mod_lt _ (by decide)
  have size : Font.glyphs.length = 80 := rfl
  have index : (core.pointGlyph x).index.toNat = 5 * ((core.get x).toNat % 16) := by
    show (UInt16.ofNat (0 + (core.get x).toNat % 16 * 5)).toNat = _
    rw [UInt16.toNat_ofNat_of_lt' (by show _ < 65536; omega)]
    omega
  refine ⟨index, by rw [index, size]; omega, fun font k inside => ?_, rfl⟩
  rw [List.length_take, List.length_drop] at inside
  have placed := font (5 * ((core.get x).toNat % 16) + k) (by omega)
  rw [Nat.zero_add] at placed
  rw [index, List.getElem?_take_of_lt (by omega), List.getElem?_drop]
  exact placed

/-- A glyph is drawn, wherever on the screen. -/
theorem PointsToGlyph.draw {x : Register} (points : core.PointsToGlyph x after)
    (column row : Register) :
    ∃ drawn, ∀ dialect byte,
      (Instruction.draw column row 5).execute dialect byte after = .ok (.next drawn) := by
  have size : Font.glyphs.length = 80 := rfl
  have inside : after.index.toNat + (5 : Nibble).val ≤ 4096 := by
    have := points.inside
    show after.index.toNat + 5 ≤ 4096
    omega
  obtain ⟨screen, flag, ran, -⟩ := draw_pixelwise after column row 5 inside
  exact ⟨_, ran⟩

end Core

namespace Machine

variable {machine : Machine}

/-- A step that adds to the index changes no register. -/
theorem index_step_of_addIndex {x : Register}
    (added : machine.step.value = .executed (.addIndex x)) :
    machine.step.after.core.index = (machine.core.addIndex x).index ∧
      ∀ registers, machine.step.after.core.addend registers = machine.core.addend registers := by
  obtain ⟨word, -, -, effect⟩ := effect_of_executed added
  generalize machine.step.after.core = after at effect ⊢
  cases effect with
  | registers isLocal => cases isLocal
  | addIndex => exact ⟨rfl, fun _ => rfl⟩

/-- A run of steps that all add to the index. -/
theorem index_steps_of_additions {registers : List Register}
    (some : registers ≠ [] ∨ machine.core.index.toNat < 4096)
    (added : machine.stepResults registers.length
      = registers.map fun x => .executed (.addIndex x)) :
    (machine.steps registers.length).core.index.toNat
      = (machine.core.index.toNat + machine.core.addend registers) % 4096 := by
  induction registers generalizing machine with
  | nil => exact (Nat.mod_eq_of_lt (some.resolve_left fun some => some rfl)).symm
  | cons x rest ih =>
    obtain ⟨first, others⟩ := List.cons.inj added
    obtain ⟨index, same⟩ := index_step_of_addIndex first
    have inside : machine.step.after.core.index.toNat < 4096 := by
      rw [index]
      exact Core.index_addIndex_lt x machine.core
    rw [← Core.addend_cons_mod, ← Core.toNat_index_addIndex, ← index, ← same]
    exact ih (Or.inr inside) others

/-- A step that points to a glyph. The random byte is none of its business, and what is remembered
as fetched has no part in it. -/
theorem step_of_pointGlyph {word : Word} (running : machine.core.control = .running)
    (holds : machine.core.memory.HoldsWord machine.core.pc word) (group : word.group = 0xF)
    (low : word.lowByte = 0x29) :
    machine.step.value = .executed (.pointGlyph word.x) ∧
      machine.step.after.core = { machine.core.pointGlyph word.x with opcode := word } := by
  have fetched := Core.fetch_eq_ok_iff_holdsWord.mpr holds
  have decoded := Instruction.decode?_eq_pointGlyph_iff.mpr ⟨group, low, rfl⟩
  rw [(Turn.executed running word _ _ fetched decoded rfl).step_eq]
  exact ⟨rfl, rfl⟩

/-- A step that draws a glyph behind a step that points to it. -/
theorem step_of_draw_glyph {word next : Word} (running : machine.core.control = .running)
    (holds : machine.core.memory.HoldsWord machine.core.pc word) (group : word.group = 0xF)
    (low : word.lowByte = 0x29)
    (holds_next : machine.core.memory.HoldsWord (machine.core.pc + 2) next)
    (group_next : next.group = 0xD) (height : next.n = 5) :
    machine.step.after.step.value = .executed (.draw next.x next.y 5) := by
  obtain ⟨-, core⟩ := step_of_pointGlyph running holds group low
  have running_after : machine.step.after.core.control = .running := by
    rw [control_step, running]
  have fetched : machine.step.after.core.fetch = .ok next := by
    rw [core]
    exact Core.fetch_eq_ok_iff_holdsWord.mpr holds_next
  have decoded := Instruction.decode?_eq_draw_iff.mpr ⟨group_next, rfl, rfl, height⟩
  obtain ⟨drawn, ran⟩ := (Core.pointsToGlyph word.x { machine.core with opcode := next }).draw
    next.x next.y
  have latched : (machine.step.after.latch next).core
      = ({ machine.core with opcode := next } : Core).pointGlyph word.x := by
    rw [latch, core]
    rfl
  rw [← latched] at ran
  rw [(Turn.executed running_after next _ drawn fetched decoded (ran _ _)).step_eq]
  rfl

/-- Where the index points, and what of memory can be reached from there.

A window of memory that ends inside is located: it begins at its address, all of its addresses lie
inside, and its bytes are read. A window that ends outside is refused with the end of memory or its
own address, whichever is higher, and if it has an address at all, this is the lowest one that lies
outside. Any positive number of additions to the index, with any registers, always runs and leaves
the sum of the index and all the registers, modulo the size of memory, wherever the index was
before; and nothing else changes but the program counter. To point to a glyph always runs as well
and leaves five times the low digit of the register, so that the glyph lies inside the font and can
be drawn, wherever on the screen. Machines do the same in the steps that execute these
instructions. -/
theorem index_arithmetic :
    (∀ (address : Word) (length : Nat),
      (address.toNat + length ≤ 4096 →
        ∃ span, Span.locate address length = .ok span ∧ span.start = address.toNat ∧
          (∀ a ∈ address.window length, a < 4096) ∧
          ∀ memory : Memory, memory.HoldsBytes address.toNat (memory.read span).toList) ∧
      (4096 < address.toNat + length →
        ∃ first : Word, Span.locate address length = .error (.addressOutOfRange first) ∧
          first.toNat = max 4096 address.toNat ∧
          (0 < length → IsLeast {a ∈ address.window length | 4096 ≤ a} first.toNat))) ∧
    (∀ (core : Core) (registers : List Register), registers ≠ [] →
      ∃ after, (∀ dialect byte,
          Instruction.executeAll dialect byte core (registers.map .addIndex) = .ok (.next after)) ∧
        after.index.toNat
          = (core.index.toNat + (registers.map fun x => (core.get x).toNat).sum) % 4096 ∧
        after = { core with
          index := after.index, pc := core.pc + UInt16.ofNat (2 * registers.length) }) ∧
    (∀ (core : Core) (x : Register),
      ∃ after, (∀ dialect byte,
          (Instruction.pointGlyph x).execute dialect byte core = .ok (.next after)) ∧
        core.PointsToGlyph x after ∧
        ∀ column row, ∃ drawn, ∀ dialect byte,
          (Instruction.draw column row 5).execute dialect byte after = .ok (.next drawn)) ∧
    ∀ machine : Machine,
      (∀ registers : List Register, registers ≠ [] →
        machine.stepResults registers.length
          = registers.map (fun x => .executed (.addIndex x)) →
        (machine.steps registers.length).core.index.toNat
          = (machine.core.index.toNat
              + (registers.map fun x => (machine.core.get x).toNat).sum) % 4096) ∧
      ∀ word next : Word, machine.core.control = .running →
        machine.core.memory.HoldsWord machine.core.pc word → word.group = 0xF →
        word.lowByte = 0x29 → machine.core.memory.HoldsWord (machine.core.pc + 2) next →
        next.group = 0xD → next.n = 5 →
        machine.step.value = .executed (.pointGlyph word.x) ∧
          machine.step.after.core.index.toNat = 5 * ((machine.core.get word.x).toNat % 16) ∧
          machine.step.after.step.value = .executed (.draw next.x next.y 5) := by
  refine ⟨fun address length => ⟨Span.locate_of_inside, Span.locate_of_outside⟩,
    fun core registers some => ?_, fun core x => ?_, fun machine => ⟨fun registers some added => ?_,
    fun word next running holds group low holds_next group_next height => ?_⟩⟩
  · obtain ⟨after, ran, index, rest⟩ := Core.executeAll_addIndex registers core
    exact ⟨after, ran, index (Or.inl some), rest⟩
  · have points := Core.pointsToGlyph x core
    exact ⟨_, fun _ _ => rfl, points, points.draw⟩
  · exact index_steps_of_additions (Or.inl some) added
  · obtain ⟨executed, core⟩ := step_of_pointGlyph running holds group low
    refine ⟨executed, ?_,
      step_of_draw_glyph running holds group low holds_next group_next height⟩
    rw [core]
    exact (Core.pointsToGlyph word.x machine.core).index

/-- An index outside memory and three additions, of which one is made twice; a window that begins
outside memory, and one whose last two bytes lie outside; and the glyph of the digit `F`, which is
the last one of the font. -/
theorem index_arithmetic_outside_memory :
    let core : Core := { (Core.fresh.set 0x1 0xFF).set 0x2 0x02 with index := 0xFFFF }
    (∃ after, (∀ dialect byte, Instruction.executeAll dialect byte core
        [.addIndex 0x1, .addIndex 0x2, .addIndex 0x1] = .ok (.next after)) ∧
      after.index.toNat = 0x1FF) ∧
    (∃ first : Word, Span.locate 0xFFFF 1 = .error (.addressOutOfRange first) ∧
      first.toNat = 0xFFFF) ∧
    (∃ first : Word, Span.locate 0xFFD 5 = .error (.addressOutOfRange first) ∧
      first.toNat = 4096) ∧
    ∃ after, (∀ dialect byte,
        (Instruction.pointGlyph 0x1).execute dialect byte core = .ok (.next after)) ∧
      after.index.toNat = 75 := by
  intro core
  obtain ⟨windows, additions, glyphs, -⟩ := index_arithmetic
  obtain ⟨summed, added, sum, -⟩ := additions core [0x1, 0x2, 0x1] (by decide)
  obtain ⟨beyond, refused, highest, -⟩ := (windows 0xFFFF 1).2 (by decide)
  obtain ⟨last, refused', least, -⟩ := (windows 0xFFD 5).2 (by decide)
  obtain ⟨pointed, ran, points, -⟩ := glyphs core 0x1
  exact ⟨⟨summed, added, sum.trans (by decide)⟩, ⟨beyond, refused, highest.trans (by decide)⟩,
    ⟨last, refused', least.trans (by decide)⟩, pointed, ran, points.index.trans (by decide)⟩

end Machine

end ChipEight
