import ChipEight.Proofs.Core.Range
/-!
# Accesses

Execution with every partial operation spelled out: a slot, a cell or a run of cells
that is addressed by a number, a copy between two runs of cells, a sum that is not
meant to wrap. Each of them gives nothing where it would leave its range. On a core
that is in range none of them does, and execution is what it is without them.

## Main definitions

- `Byte.sum?`, `Byte.difference?`, `Word.sum?`, `Word.product?` — arithmetic that may
  not wrap
- `slice?`, `splice?` — a run of cells read and replaced
- `Screen.plot?` — a pixel addressed by two numbers
- `Instruction.execute?` — execution by these operations

## Main statements

- `Instruction.execute?_of_inRange` — on a core in range they are all defined

## Design notes

An instruction that can fail checks first and accesses afterwards, so `execute?` has
two kinds of failure apart: `none` for an access that left its range, and a fault
inside `some` for a check that refused.
-/

namespace ChipEight

/-- The sum of two bytes, if it is a byte. -/
def Byte.sum? (a b : Byte) : Option Byte :=
  if a.toNat + b.toNat < UInt8.size then some (a + b) else none

/-- The difference of two bytes, if it is a byte. -/
def Byte.difference? (a b : Byte) : Option Byte :=
  if b.toNat ≤ a.toNat then some (a - b) else none

/-- The sum of two words, if it is a word. -/
def Word.sum? (a b : Word) : Option Word :=
  if a.toNat + b.toNat < UInt16.size then some (a + b) else none

/-- The product of two words, if it is a word. -/
def Word.product? (a b : Word) : Option Word :=
  if a.toNat * b.toNat < UInt16.size then some (a * b) else none

section Cells

variable {α : Type} {n : Nat}

/-- The cells from `start` up to `stop`, if they are in order and inside. -/
def slice? (cells : Vector α n) (start stop : Nat) : Option (List α) :=
  if start ≤ stop ∧ stop ≤ n then some ((cells.toList.take stop).drop start) else none

/-- The cells from `start` up to `stop` replaced by a list, if they are in order and
inside and the list is as long. -/
def splice? (cells : Vector α n) (start stop : Nat) (new : List α) : Option (Vector α n) :=
  if start ≤ stop ∧ stop ≤ n ∧ new.length = stop - start then
    some (overwrite cells start new)
  else none

theorem slice?_eq_some {cells : Vector α n} {start length : Nat} (inside : start + length ≤ n) :
    slice? cells start (start + length) = some ((cells.toList.take (start + length)).drop start) :=
  if_pos ⟨Nat.le_add_right _ _, inside⟩

theorem splice?_eq_some {cells : Vector α n} {start length : Nat} (inside : start + length ≤ n)
    (new : Vector α length) :
    splice? cells start (start + length) new.toList = some (overwrite cells start new.toList) := by
  refine if_pos ⟨Nat.le_add_right _ _, inside, ?_⟩
  rw [Vector.length_toList]
  omega

end Cells

/-- The bytes of a span are a run of cells inside memory. -/
theorem Memory.slice?_span {length : Nat} (memory : Memory) (span : Span length) :
    slice? memory span.start (span.start + length) = some (memory.read span).toList := by
  rw [slice?_eq_some span.fits]
  congr 1
  apply List.ext_getElem
  · have := span.fits
    simp only [List.length_drop, List.length_take, Vector.length_toList]
    omega
  · intro k _ _
    simp [Memory.read]

namespace Screen

/-- `plot` for a pixel given by its column and its row. -/
def plot? (drawn : Screen × Byte) (column row : Nat) : Option (Screen × Byte) :=
  if inside : column < width ∧ row < height then
    some (plot drawn ⟨⟨column, inside.1⟩, ⟨row, inside.2⟩⟩)
  else none

/-- The set bits of one row of a sprite, leftmost first. -/
def plotColumns? (column row : Nat) : List Nat → Screen × Byte → Option (Screen × Byte)
  | [], drawn => some drawn
  | offset :: rest, drawn => do
    plotColumns? column row rest (← plot? drawn ((column + offset) % width) (row % height))

/-- The rows of a sprite, top row first. -/
def plotRows? (column row : Nat) : List Byte → Screen × Byte → Option (Screen × Byte)
  | [], drawn => some drawn
  | bits :: rest, drawn => do
    plotRows? column (row + 1) rest (← plotColumns? column row (Sprite.rowColumns bits) drawn)

theorem plot?_wrap (drawn : Screen × Byte) (column row : Nat) :
    plot? drawn (column % width) (row % height) = some (plot drawn (Pixel.wrap column row)) :=
  dif_pos ⟨Nat.mod_lt _ (by decide), Nat.mod_lt _ (by decide)⟩

theorem plotColumns?_eq_some (column row : Nat) (offsets : List Nat) (drawn : Screen × Byte) :
    plotColumns? column row offsets drawn =
      some ((offsets.map fun offset => Pixel.wrap (column + offset) row).foldl plot drawn) := by
  induction offsets generalizing drawn with
  | nil => rfl
  | cons offset rest ih =>
    rw [plotColumns?, plot?_wrap]
    exact ih _

/-- The remainders keep every pixel of a sprite on the screen. -/
theorem plotRows?_eq_some (column row : Nat) (rows : List Byte) (drawn : Screen × Byte) :
    plotRows? column row rows drawn =
      some ((Sprite.pixels column row rows).foldl plot drawn) := by
  induction rows generalizing row drawn with
  | nil => rfl
  | cons bits rest ih =>
    rw [plotRows?, plotColumns?_eq_some, Sprite.pixels, List.foldl_append]
    exact ih _ _

end Screen

namespace Core

/-- `call` with the access to the slot and the sum that moves the stack pointer. -/
def call? (target : Word) (core : Core) : Option (Except Fault Core) :=
  if stackSize ≤ core.sp.toNat + 1 then some (.error (.stackOverflow core.pc))
  else do
    let stack ← if h : core.sp.toNat < stackSize then
      some (core.stack.set core.sp.toNat core.pc) else none
    let sp ← Byte.sum? core.sp 1
    return .ok { core with pc := target, sp, stack }

/-- `ret` with the difference that moves the stack pointer and the access to the slot. -/
def ret? (core : Core) : Option (Except Fault Core) :=
  if core.sp = 0 then some (.error (.stackUnderflow core.pc))
  else do
    let sp ← Byte.difference? core.sp 1
    let site ← core.stack[sp.toNat]?
    return .ok { core with pc := site + 2, sp }

/-- `pointGlyph` with the product and the sum that give the address. -/
def pointGlyph? (x : Register) (core : Core) : Option Core := do
  let offset ← Word.product? (UInt16.ofNat ((core.get x).toNat % 16)) (UInt16.ofNat Font.glyphHeight)
  let address ← Word.sum? (UInt16.ofNat Font.start) offset
  return core.assignIndex address

/-- `draw` with the accesses to memory and to the cells, which are looked at while
the sprite is drawn. -/
def draw? (x y : Register) (height : Nibble) (core : Core) : Option (Except Fault Core) :=
  match Span.locate core.index height.val with
  | .error fault => some (.error fault)
  | .ok span => do
    let rows ← slice? core.memory span.start (span.start + height.val)
    let (screen, collision) ←
      Screen.plotRows? (core.get x).toNat (core.get y).toNat rows (core.screen, 0)
    return .ok ({ core with screen, redraw := true }.set Register.flag collision).next

/-- `decimal` with the copy of the digits. -/
def decimal? (x : Register) (core : Core) : Option (Except Fault Core) :=
  match Span.locate core.index 3 with
  | .error fault => some (.error fault)
  | .ok span => do
    let memory ← splice? core.memory span.start (span.start + 3) (core.get x).digits.toList
    return .ok { core with memory }.next

/-- `indexAfter` with the sums that give the index. -/
def indexAfter? (dialect : Dialect) (x : Register) (core : Core) : Option Word :=
  if dialect.transfersMoveIndex then do
    let last ← Word.sum? core.index (UInt16.ofNat x.val)
    let behind ← Word.sum? last 1
    return behind % 4096
  else some core.index

/-- `store` with the run of registers, the copy to memory and the sums. -/
def store? (dialect : Dialect) (x : Register) (core : Core) : Option (Except Fault Core) :=
  match Span.locate core.index (x.val + 1) with
  | .error fault => some (.error fault)
  | .ok span => do
    let bytes ← slice? core.registers 0 (0 + (x.val + 1))
    let memory ← splice? core.memory span.start (span.start + (x.val + 1)) bytes
    let index ← core.indexAfter? dialect x
    return .ok ({ core with memory }.assignIndex index)

/-- `restore` with the run of bytes, the copy to the registers and the sums. -/
def restore? (dialect : Dialect) (x : Register) (core : Core) : Option (Except Fault Core) :=
  match Span.locate core.index (x.val + 1) with
  | .error fault => some (.error fault)
  | .ok span => do
    let bytes ← slice? core.memory span.start (span.start + (x.val + 1))
    let registers ← splice? core.registers 0 (0 + (x.val + 1)) bytes
    let index ← core.indexAfter? dialect x
    return .ok ({ core with registers }.assignIndex index)

end Core

/-- Execution with every access that may leave its range. The instructions that are
not listed address nothing by a number. -/
def Instruction.execute? (dialect : Dialect) (byte : Byte) (core : Core) :
    Instruction → Option (Except Fault Outcome)
  | .ret => core.ret?.map (·.map .next)
  | .call target => (core.call? (.ofAddress target)).map (·.map .next)
  | .pointGlyph x => (core.pointGlyph? x).map fun after => .ok (.next after)
  | .draw x y height => (core.draw? x y height).map (·.map .next)
  | .decimal x => (core.decimal? x).map (·.map .next)
  | .store x => (core.store? dialect x).map (·.map .next)
  | .restore x => (core.restore? dialect x).map (·.map .next)
  | other => some (other.execute dialect byte core)

namespace Core

theorem call?_eq_some (target : Word) (core : Core) :
    core.call? target = some (core.call target) := by
  rw [call?, call]
  by_cases room : core.sp.toNat + 1 < stackSize
  · have free : core.sp.toNat < stackSize := Nat.lt_of_succ_lt room
    have sum : Byte.sum? core.sp 1 = some (core.sp + 1) := if_pos (Nat.lt_trans room (by decide))
    rw [if_neg (Nat.not_le.mpr room), dif_pos free, sum, dif_pos room]
    rfl
  · rw [if_pos (Nat.not_lt.mp room), dif_neg room]

/-- A return stays inside the stack because the stack pointer does. -/
theorem ret?_eq_some {core : Core} (h : core.InRange) : core.ret? = some core.ret := by
  rw [ret?, ret]
  by_cases empty : core.sp = 0
  · rw [if_pos empty, if_pos empty]
  · have hsp := toNat_sp_sub_one empty
    have bound : core.sp.toNat - 1 < stackSize := Nat.lt_of_le_of_lt (Nat.sub_le _ _)
      (Nat.lt_succ_of_le h.sp_le)
    have difference : Byte.difference? core.sp 1 = some (core.sp - 1) :=
      if_pos (show 1 ≤ core.sp.toNat from toNat_sp_pos empty)
    rw [if_neg empty, if_neg empty, difference, dif_pos bound]
    simp [hsp, bound]

theorem pointGlyph?_eq_some (x : Register) (core : Core) :
    core.pointGlyph? x = some (core.pointGlyph x) := by
  have digit : (core.get x).toNat % 16 < 16 := Nat.mod_lt _ (by decide)
  have offset : Word.product? (UInt16.ofNat ((core.get x).toNat % 16))
      (UInt16.ofNat Font.glyphHeight)
        = some (UInt16.ofNat ((core.get x).toNat % 16 * Font.glyphHeight)) := by
    rw [UInt16.ofNat_mul]
    refine if_pos ?_
    rw [UInt16.toNat_ofNat_of_lt' (Nat.lt_trans digit (by decide))]
    show (core.get x).toNat % 16 * 5 < 65536
    omega
  have address (w : Word) : Word.sum? (UInt16.ofNat Font.start) w = some w := by
    have : UInt16.ofNat Font.start + w = w := UInt16.zero_add w
    rw [Word.sum?, this]
    refine if_pos ?_
    show 0 + w.toNat < 65536
    have := w.toNat_lt
    omega
  simp only [pointGlyph?, pointGlyph, offset, address, Option.bind_eq_bind, Option.bind_some]
  rw [show Font.start + (core.get x).toNat % 16 * Font.glyphHeight
    = (core.get x).toNat % 16 * Font.glyphHeight from Nat.zero_add _]
  rfl

theorem draw?_eq_some (x y : Register) (height : Nibble) (core : Core) :
    core.draw? x y height = some (core.draw x y height) := by
  rw [draw?, draw]
  cases located : Span.locate core.index height.val with
  | error fault => rfl
  | ok span =>
    have distinct := Sprite.nodup_pixels_toList (core.get x).toNat (core.get y).toNat
      (core.memory.read span)
    simp only [Memory.slice?_span, Screen.plotRows?_eq_some, Option.bind_eq_bind,
      Option.bind_some, Screen.foldl_plot _ _ distinct]
    rfl

theorem decimal?_eq_some (x : Register) (core : Core) :
    core.decimal? x = some (core.decimal x) := by
  rw [decimal?, decimal]
  cases located : Span.locate core.index 3 with
  | error fault => rfl
  | ok span =>
    simp only [splice?_eq_some span.fits, Option.bind_eq_bind, Option.bind_some]
    rfl

/-- The sums stay inside a word because the span that was located ends inside memory. -/
theorem indexAfter?_eq_some (dialect : Dialect) (x : Register) {core : Core}
    (inside : core.index.toNat + (x.val + 1) ≤ Memory.size) :
    core.indexAfter? dialect x = some (core.indexAfter dialect (x.val + 1)) := by
  have bound : core.index.toNat + (x.val + 1) ≤ 4096 := inside
  have hx : (UInt16.ofNat x.val).toNat = x.val :=
    UInt16.toNat_ofNat_of_lt' (Nat.lt_trans x.isLt (by decide))
  have last : Word.sum? core.index (UInt16.ofNat x.val)
      = some (core.index + UInt16.ofNat x.val) := by
    refine if_pos ?_
    show core.index.toNat + (UInt16.ofNat x.val).toNat < 65536
    omega
  have behind : Word.sum? (core.index + UInt16.ofNat x.val) 1
      = some (core.index + UInt16.ofNat x.val + 1) := by
    refine if_pos ?_
    show (core.index + UInt16.ofNat x.val).toNat + 1 < 65536
    rw [UInt16.toNat_add, hx]
    omega
  rw [indexAfter?, indexAfter]
  split
  · simp only [last, behind, Option.bind_eq_bind, Option.bind_some]
    rw [UInt16.ofNat_add, ← UInt16.add_assoc]
    rfl
  · rfl

theorem slice?_registers (x : Register) (core : Core) :
    slice? core.registers 0 (0 + (x.val + 1)) = some (core.registersTo x).toList := by
  rw [slice?_eq_some (by omega)]
  congr 1
  apply List.ext_getElem
  · simp only [List.length_drop, List.length_take, Vector.length_toList]
    omega
  · intro k _ _
    simp [registersTo, get]

theorem store?_eq_some (dialect : Dialect) (x : Register) (core : Core) :
    core.store? dialect x = some (core.store dialect x) := by
  rw [store?, store]
  cases located : Span.locate core.index (x.val + 1) with
  | error fault => rfl
  | ok span =>
    simp only [slice?_registers, splice?_eq_some span.fits, Option.bind_eq_bind, Option.bind_some,
      indexAfter?_eq_some dialect x (Span.locate_eq_ok_iff.mp located).1]
    rfl

theorem restore?_eq_some (dialect : Dialect) (x : Register) (core : Core) :
    core.restore? dialect x = some (core.restore dialect x) := by
  rw [restore?, restore]
  cases located : Span.locate core.index (x.val + 1) with
  | error fault => rfl
  | ok span =>
    simp only [Memory.slice?_span, splice?_eq_some (show 0 + (x.val + 1) ≤ 16 by omega),
      Option.bind_eq_bind, Option.bind_some,
      indexAfter?_eq_some dialect x (Span.locate_eq_ok_iff.mp located).1]
    rfl

end Core

/-- On a core in range no access of any instruction leaves its range, and what the
accesses compute is what the instruction does. -/
theorem Instruction.execute?_of_inRange {core : Core} (h : core.InRange) (dialect : Dialect)
    (byte : Byte) (instruction : Instruction) :
    instruction.execute? dialect byte core = some (instruction.execute dialect byte core) := by
  cases instruction with
  | ret => rw [execute?, Core.ret?_eq_some h]; rfl
  | call target => rw [execute?, Core.call?_eq_some]; rfl
  | pointGlyph x => rw [execute?, Core.pointGlyph?_eq_some]; rfl
  | draw x y height => rw [execute?, Core.draw?_eq_some]; rfl
  | decimal x => rw [execute?, Core.decimal?_eq_some]; rfl
  | store x => rw [execute?, Core.store?_eq_some]; rfl
  | restore x => rw [execute?, Core.restore?_eq_some]; rfl
  | _ => rfl

end ChipEight
