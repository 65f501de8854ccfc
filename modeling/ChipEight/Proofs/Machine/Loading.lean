import ChipEight.Machine.Command
import ChipEight.Proofs.Machine.Event
/-!
# Loading

A program is loaded whole or not at all, and it makes no difference in which pieces a source
delivers its bytes, or how often a read of it has to be tried again.

## Main definitions

- `Read.isEnd`, `Read.isFinal`, `Read.chunk` — what a single read tells of its source
- `Source.beforeEnd` — the reads in front of the first end
- `Source.Breaks`, `Source.bytes` — whether these fail for good, and the bytes they give

## Main statements

- `Source.contents_of_breaks`, `Source.contents_of_unbroken` — what the reads of a source come
  to
- `Machine.perform_load_of_fits`, `Machine.perform_load_of_too_large` — a program loaded from
  bytes
- `Machine.loads_whole_or_not_at_all` — every load
-/

namespace ChipEight

namespace Read

/-- A read that gives no bytes: the source has come to its end. -/
def isEnd : Read → Bool
  | .bytes chunk => chunk.isEmpty
  | .failure _ => false

/-- A failure behind which the source is not read again. -/
def isFinal : Read → Bool
  | .bytes _ => false
  | .failure cause => cause ≠ .interrupted

/-- The bytes that a read gives. -/
def chunk : Read → List Byte
  | .bytes chunk => chunk
  | .failure _ => []

end Read

namespace Source

/-- The reads in front of the first end; all of them if no read comes to an end. -/
def beforeEnd (source : List Read) : List Read :=
  source.takeWhile fun read => !read.isEnd

/-- Some read in front of the end fails for good. -/
def Breaks (source : List Read) : Prop :=
  ∃ read ∈ beforeEnd source, read.isFinal = true

/-- The bytes read in front of the end, one read after the other. -/
def bytes (source : List Read) : List Byte :=
  (beforeEnd source).flatMap Read.chunk

variable {read : Read} {rest : List Read}

theorem beforeEnd_cons_of_isEnd (ends : read.isEnd = true) : beforeEnd (read :: rest) = [] := by
  simp [beforeEnd, ends]

theorem beforeEnd_cons (goes_on : read.isEnd = false) :
    beforeEnd (read :: rest) = read :: beforeEnd rest := by
  simp [beforeEnd, goes_on]

theorem breaks_cons (goes_on : read.isEnd = false) :
    Breaks (read :: rest) ↔ read.isFinal = true ∨ Breaks rest := by
  simp [Breaks, beforeEnd_cons goes_on]

theorem bytes_cons (goes_on : read.isEnd = false) :
    bytes (read :: rest) = read.chunk ++ bytes rest := by
  rw [bytes, beforeEnd_cons goes_on, List.flatMap_cons]
  rfl

/-- Where the end comes first, nothing behind it is looked at. -/
theorem contents_cons_of_isEnd (ends : read.isEnd = true) : contents (read :: rest) = .ok [] := by
  cases read with
  | bytes chunk =>
    rw [List.isEmpty_iff.mp ends]
    rfl
  | failure cause => cases ends

theorem contents_cons_of_isFinal (final : read.isFinal = true) :
    contents (read :: rest) = .error .unreadable := by
  cases read with
  | bytes chunk => cases final
  | failure cause =>
    cases cause with
    | interrupted => cases final
    | _ => rfl

/-- Any other read adds its bytes, of which an interrupted one has none. -/
theorem contents_cons (goes_on : read.isEnd = false) (retried : read.isFinal = false) :
    contents (read :: rest) = (contents rest).map (read.chunk ++ ·) := by
  cases read with
  | bytes chunk =>
    cases chunk with
    | nil => cases goes_on
    | cons first others => rfl
  | failure cause =>
    cases cause with
    | interrupted => cases h : contents rest <;> simp [contents, h, Except.map, Read.chunk]
    | _ => cases retried

/-- A source that fails for good gives nothing, whatever it has given before. -/
theorem contents_of_breaks {source : List Read} (breaks : Breaks source) :
    contents source = .error .unreadable := by
  induction source with
  | nil =>
    obtain ⟨read, member, _⟩ := breaks
    cases member
  | cons read rest ih =>
    cases ends : read.isEnd with
    | true =>
      obtain ⟨other, member, _⟩ := breaks
      rw [beforeEnd_cons_of_isEnd ends] at member
      cases member
    | false =>
      cases final : read.isFinal with
      | true => exact contents_cons_of_isFinal final
      | false =>
        have later : Breaks rest := by
          rcases (breaks_cons ends).mp breaks with now | later
          · rw [final] at now
            cases now
          · exact later
        rw [contents_cons ends final, ih later]
        rfl

/-- Any other source gives its bytes, in whatever pieces they come. -/
theorem contents_of_unbroken {source : List Read} (unbroken : ¬ Breaks source) :
    contents source = .ok (bytes source) := by
  induction source with
  | nil => rfl
  | cons read rest ih =>
    cases ends : read.isEnd with
    | true =>
      rw [contents_cons_of_isEnd ends, bytes, beforeEnd_cons_of_isEnd ends]
      rfl
    | false =>
      obtain ⟨final, later⟩ := not_or.mp (mt (breaks_cons ends).mpr unbroken)
      rw [contents_cons ends (Bool.eq_false_iff.mpr final), ih later, bytes_cons ends]
      rfl

-- two pieces, a read tried again between them, and a failure behind the end
example :
    Source.contents [.bytes [0x12], .failure .interrupted, .bytes [0x00], .bytes [], .failure .other]
      = .ok [0x12, 0x00] := rfl

end Source

namespace Machine

variable {machine : Machine} {program : List Byte} {source : List Read}

theorem perform_load_of_too_large (large : Memory.programRoom < program.length) :
    machine.perform (.load program)
      = { value := .refused (.tooLarge program.length), after := machine } := by
  have refused : machine.core.memory.load program = .error (.tooLarge program.length) :=
    if_neg (Nat.not_le.mpr large)
  simp [perform, load, Core.load, refused, Except.map, respond]

theorem perform_load_of_fits (fits : program.length ≤ Memory.programRoom) :
    machine.perform (.load program) =
      { value := .done
        after := { machine with core := { machine.core with
          memory := overwrite machine.core.memory Memory.programStart program } }
        events := #[.loaded program.length] } := by
  have loaded : machine.core.memory.load program
      = .ok (overwrite machine.core.memory Memory.programStart program) := if_pos fits
  simp [perform, load, Core.load, loaded, Except.map, respond]

theorem perform_loadFrom_of_breaks (breaks : Source.Breaks source) :
    machine.perform (.loadFrom source)
      = { value := .refused .unreadable, after := machine } := by
  simp [perform, loadFrom, Source.contents_of_breaks breaks, respond]

theorem perform_loadFrom_of_unbroken (unbroken : ¬ Source.Breaks source) :
    machine.perform (.loadFrom source) = machine.perform (.load (Source.bytes source)) := by
  simp [perform, loadFrom, Source.contents_of_unbroken unbroken]

/-- A load reports that a program was loaded, if one was, and nothing else. -/
theorem mem_events_loadFrom {event : Event} :
    event ∈ (machine.perform (.loadFrom source)).events ↔
      (machine.perform (.loadFrom source)).value = .done ∧
        event = .loaded (Source.bytes source).length := by
  by_cases breaks : Source.Breaks source
  · simp [perform_loadFrom_of_breaks breaks]
  · rw [perform_loadFrom_of_unbroken breaks]
    by_cases fits : (Source.bytes source).length ≤ Memory.programRoom
    · simp [perform_load_of_fits fits]
    · simp [perform_load_of_too_large (Nat.not_le.mp fits)]

/-- Every load, from bytes or from a source, is all or nothing.

A program that does not fit is refused with its size. One that fits stands at its place
afterwards, byte by byte, and all other bytes of memory and everything else stay as they were.
A source that fails for good in front of its end is refused, however many bytes it has given.
Any other source is as good as its bytes, and so two sources with the same bytes are as good as
each other. A program is reported as loaded exactly where it was, with its size. -/
theorem loads_whole_or_not_at_all (machine : Machine) :
    (∀ program : List Byte,
      (Memory.programRoom < program.length →
        machine.perform (.load program) =
          { value := .refused (.tooLarge program.length), after := machine, events := #[] }) ∧
      (program.length ≤ Memory.programRoom → ∃ memory : Memory,
        machine.perform (.load program) =
          { value := .done
            after := { machine with core := { machine.core with memory } }
            events := #[.loaded program.length] } ∧
        (∀ k < program.length, memory[0x200 + k]? = program[k]?) ∧
        ∀ address, address < 0x200 ∨ 0x200 + program.length ≤ address →
          memory[address]? = machine.core.memory[address]?)) ∧
    ∀ source : List Read,
      (Source.Breaks source →
        machine.perform (.loadFrom source) =
          { value := .refused .unreadable, after := machine, events := #[] }) ∧
      (¬ Source.Breaks source →
        machine.perform (.loadFrom source) = machine.perform (.load (Source.bytes source))) ∧
      (∀ other : List Read, (Source.Breaks other ↔ Source.Breaks source) →
        Source.bytes other = Source.bytes source →
        machine.perform (.loadFrom other) = machine.perform (.loadFrom source)) ∧
      (∀ size, .loaded size ∈ (machine.perform (.loadFrom source)).events ↔
        (machine.perform (.loadFrom source)).value = .done ∧
          size = (Source.bytes source).length) ∧
      ∀ event ∈ (machine.perform (.loadFrom source)).events,
        event.level = .info ∧ event.message = "loaded program" ∧
        event.fields = [("bytes", .number (Source.bytes source).length)] := by
  refine ⟨fun program => ⟨perform_load_of_too_large, fun fits => ?_⟩, fun source =>
    ⟨perform_loadFrom_of_breaks, perform_loadFrom_of_unbroken, fun other broken same => ?_,
      fun size => ?_, fun event member => ?_⟩⟩
  · refine ⟨_, perform_load_of_fits fits, fun k hk => ?_, fun address outside => ?_⟩
    · have inside : 0x200 + program.length ≤ 4096 := by
        have fits : program.length ≤ 4096 - 0x200 := fits
        omega
      exact getElem?_overwrite_add _ inside hk
    · exact getElem?_overwrite_of_outside _ outside
  · by_cases breaks : Source.Breaks source
    · rw [perform_loadFrom_of_breaks breaks, perform_loadFrom_of_breaks (broken.mpr breaks)]
    · rw [perform_loadFrom_of_unbroken breaks, perform_loadFrom_of_unbroken (mt broken.mp breaks),
        same]
  · rw [mem_events_loadFrom, Event.loaded.injEq]
  · obtain ⟨-, rfl⟩ := mem_events_loadFrom.mp member
    exact (Event.tells _).of_loaded

end Machine

end ChipEight
