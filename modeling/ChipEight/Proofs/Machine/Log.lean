import ChipEight.Proofs.Instruction.ReadSet
import ChipEight.Proofs.Machine.Event
import ChipEight.Proofs.Machine.Fault
import ChipEight.Proofs.Machine.History
/-!
# The log of a frame

What a frame reports against the steps that it takes: one entry for each step, in their order.
The log can be followed on its own, since every entry tells where the next one starts.

## Main definitions

- `Machine.logged?` — what a frame reports of one step
- `Event.isAttempt` — an entry of a step that a frame counts
- `Event.Chained` — entries that start where the one before them leads

## Main statements

- `Machine.report_attempt`, `Machine.report_runFrame` — the log of a batch and of a frame, and
  what they count
- `Machine.batchStarts_of_not_isAttempt` — a wait comes last
- `Machine.chained_batchStarts` — the log of a batch is chained
- `Machine.log_accounts` — the log of every frame
-/

namespace ChipEight

namespace Event

/-- Whether an event tells of an instruction that ran or failed. -/
def isAttempt (event : Event) : Bool :=
  event.level = .trace || event.level = .warn

/-- The entries of a log in front of which the program counter is `pc` and the word fetched last
is `opcode`: each one starts where the one before it leads, and a wait comes last. A failure
leads behind its instruction. It shows another word than the one fetched before only where the
two bytes at its address lie in memory. -/
inductive Chained : (pc opcode : Word) → List Event → Prop where
  | nil (pc opcode : Word) : Chained pc opcode []
  | executed (pc opcode : Word) (line : TraceLine) {others : List Event}
      (rest : Chained line.pc line.opcode others) :
      Chained pc opcode (.executed pc line :: others)
  | skipped (pc opcode word : Word) (fault : Fault) {others : List Event}
      (unfetched : Memory.size < pc.toNat + 2 → word = opcode)
      (rest : Chained (pc + 2) word others) :
      Chained pc opcode (.skipped word fault :: others)
  | waiting (pc opcode : Word) : Chained pc opcode [.waitingForKey pc]

end Event

namespace Machine

/-- What a frame reports of the step from a machine. An instruction that ran is shown with its
address and its word, and with the program counter, the index and the registers behind it; a
failure with its fault and the word fetched last; a wait with its address. -/
def logged? (machine : Machine) : Option Event :=
  let after := machine.step.after.core
  match machine.step.value with
  | .executed instruction => some (.executed machine.core.pc
      ⟨machine.core.latched, instruction, after.pc, after.index, after.registers⟩)
  | .failed fault => some (.skipped machine.core.latched fault)
  | .awaitingKey => some (.waitingForKey machine.core.pc)
  | .stopped => none

variable {machine start : Machine}

/-- An executed instruction was decoded from the word at the program counter. -/
theorem fetch_of_executed {instruction : Instruction}
    (executed : machine.step.value = .executed instruction) :
    machine.core.fetch = .ok machine.core.latched ∧
      Instruction.decode? machine.core.latched = some instruction := by
  obtain ⟨word, fetched, decoded, -⟩ := effect_of_executed executed
  rw [Core.latched_of_fetched fetched]
  exact ⟨fetched, decoded⟩

/-- A wait was fetched like any instruction, and it is always the same one. -/
theorem fetch_of_awaitingKey (awaiting : machine.step.value = .awaitingKey) :
    ∃ x, machine.core.fetch = .ok machine.core.latched ∧
      Instruction.decode? machine.core.latched = some (.awaitKey x) := by
  have turn := machine.turn_step
  generalize machine.step = report at turn awaiting
  cases turn with
  | waiting running word instruction fetched decoded waits =>
    obtain ⟨x, rfl⟩ := Instruction.eq_awaitKey_of_execute waits
    rw [Core.latched_of_fetched fetched]
    exact ⟨x, fetched, decoded⟩
  | _ => cases awaiting

/-- A step that ran or failed leaves the word that it fetched, or the one fetched before. -/
theorem opcode_step_of_isAttempt (attempts : machine.step.value.isAttempt = true) :
    machine.step.after.core.opcode = machine.core.latched := by
  apply opcode_step
  apply Classical.byContradiction
  intro idle
  rw [step_of_idle idle] at attempts
  cases attempts

theorem events_step_of_executed {instruction : Instruction}
    (executed : machine.step.value = .executed instruction) :
    machine.step.events = #[.executed machine.core.pc
      ⟨machine.core.latched, instruction, machine.step.after.core.pc,
        machine.step.after.core.index, machine.step.after.core.registers⟩] := by
  have turn := machine.turn_step
  generalize machine.step = report at turn executed ⊢
  cases turn with
  | executed running word instruction core fetched decoded ran =>
    cases executed
    rw [Core.latched_of_fetched fetched]
    rfl
  | _ => cases executed

/-- A batch reports its steps in their order, behind what was reported before, and counts those
that ran or failed. -/
theorem report_attempt (count : Nat) (machine : Machine) (attempted : Nat)
    (events : Array Event) :
    let report := attempt count machine attempted events
    let log := (batchStarts count machine).filterMap logged?
    report.events.toList = events.toList ++ log ∧
      report.value = attempted + log.countP Event.isAttempt := by
  induction count generalizing machine attempted events with
  | zero => simp [attempt, batchStarts]
  | succ count ih =>
    rw [attempt, batchStarts, List.filterMap_cons, logged?]
    cases hvalue : machine.step.value with
    | executed instruction =>
      simp [ih, events_step_of_executed hvalue, StepResult.isAttempt, Event.isAttempt, Event.level,
        Nat.add_assoc, Nat.add_comm 1]
    | failed fault =>
      -- the word is reported as it is remembered behind the step
      have opcode : machine.step.after.core.opcode = machine.core.latched :=
        opcode_step_of_isAttempt (by rw [hvalue]; rfl)
      simp [ih, opcode, StepResult.isAttempt, Event.isAttempt, Event.level, Nat.add_assoc,
        Nat.add_comm 1]
    | awaitingKey =>
      have pc : machine.step.after.core.pc = machine.core.pc := by
        rw [after_step_of_awaitingKey hvalue]
        rfl
      simp [pc, StepResult.isAttempt, Event.isAttempt, Event.level]
    | stopped => simp [StepResult.isAttempt]

/-- A step that is not counted is the last one of its batch. -/
theorem batchStarts_of_not_isAttempt {count : Nat} (member : start ∈ batchStarts count machine)
    (uncounted : start.step.value.isAttempt = false) :
    ∃ before, batchStarts count machine = before ++ [start] := by
  induction count generalizing machine with
  | zero => cases member
  | succ count ih =>
    rw [batchStarts] at member ⊢
    rcases List.mem_cons.mp member with rfl | later
    · exact ⟨[], by rw [uncounted]; rfl⟩
    · split at later
      · next goes_on =>
        obtain ⟨before, parts⟩ := ih later
        exact ⟨machine :: before, by rw [if_pos goes_on, parts]; rfl⟩
      · cases later

/-- The log of a batch can be followed from the program counter at its beginning. -/
theorem chained_batchStarts (count : Nat) (machine : Machine) :
    Event.Chained machine.core.pc machine.core.opcode
      ((batchStarts count machine).filterMap logged?) := by
  induction count generalizing machine with
  | zero => exact .nil _ _
  | succ count ih =>
    rw [batchStarts, List.filterMap_cons, logged?]
    have rest := ih machine.step.after
    cases hvalue : machine.step.value with
    | executed instruction =>
      have opcode : machine.step.after.core.opcode = machine.core.latched :=
        opcode_step_of_isAttempt (by rw [hvalue]; rfl)
      rw [opcode] at rest
      exact .executed _ _ _ rest
    | failed fault =>
      have opcode : machine.step.after.core.opcode = machine.core.latched :=
        opcode_step_of_isAttempt (by rw [hvalue]; rfl)
      have pc : machine.step.after.core.pc = machine.core.pc + 2 := by
        rw [after_step_of_failed hvalue]
      rw [opcode, pc] at rest
      refine .skipped _ _ _ fault (fun outside => ?_) rest
      rw [Core.latched, dif_neg (by omega)]
    | awaitingKey => exact .waiting _ _
    | stopped => exact .nil _ _

/-- So does a frame; the tick behind its batch is not reported. -/
theorem report_runFrame (machine : Machine) :
    let log := (machine.startsOf .runFrame).filterMap logged?
    machine.runFrame.events.toList = log ∧
      machine.runFrame.value = log.countP Event.isAttempt := by
  obtain ⟨events, value⟩ := report_attempt machine.settings.instructionsPerFrame machine 0 #[]
  rw [Nat.zero_add] at value
  rw [runFrame]
  split
  · exact ⟨events, value⟩
  · exact ⟨events, value⟩

/-- Of all entries only that of a wait has the level `debug`. -/
theorem exists_debug_iff (starts : List Machine) :
    (∃ event ∈ starts.filterMap logged?, event.level = .debug) ↔
      ∃ start ∈ starts, start.step.value = .awaitingKey := by
  constructor
  · rintro ⟨event, member, level⟩
    obtain ⟨start, started, entry⟩ := List.mem_filterMap.mp member
    refine ⟨start, started, ?_⟩
    rw [logged?] at entry
    cases hvalue : start.step.value with
    | awaitingKey => rfl
    | executed instruction | failed fault =>
      rw [hvalue] at entry
      cases entry
      cases level
    | stopped =>
      rw [hvalue] at entry
      cases entry
  · rintro ⟨start, started, awaiting⟩
    have entry : start.logged? = some (.waitingForKey start.core.pc) := by
      rw [logged?, awaiting]
    exact ⟨_, List.mem_filterMap.mpr ⟨start, started, entry⟩, rfl⟩

/-- The log of a frame accounts for every step that the frame takes.

It holds one entry for each of these steps, in their order, and nothing else: what ran, with
the word that was fetched and what it left; what failed, with its fault and the word fetched
last, which is the failing one unless the fetch itself failed; and a wait. Each is reported with
its own level, message and fields. The frame counts the first two kinds. The third stands there
exactly if the frame ended on a wait, and then it is the last entry and shows where the waiting
instruction stands. The log is chained: it begins where the frame begins, and every entry tells
where the next one starts and which word was fetched before it. -/
theorem log_accounts (machine : Machine) :
    let starts := machine.startsOf .runFrame
    let log := machine.runFrame.events.toList
    (∃ last, StepRun machine starts last ∧
      (machine.runFrame.after = last ∨ machine.runFrame.after = last.tick)) ∧
    log = starts.filterMap logged? ∧
    (∀ event ∈ log, event.Tells event.level event.message event.fields) ∧
    machine.runFrame.value
      = log.countP (fun event => event.level = .trace || event.level = .warn) ∧
    ((∃ event ∈ log, event.level = .debug) ↔
      ∃ start ∈ starts, start.step.value = .awaitingKey) ∧
    Event.Chained machine.core.pc machine.core.opcode log ∧
    ∀ start ∈ starts,
      start.core.Latches start.core.latched ∧
      (∀ instruction, start.step.value = .executed instruction →
        start.core.fetch = .ok start.core.latched ∧
        Instruction.decode? start.core.latched = some instruction ∧
        let after := start.step.after.core
        let line : TraceLine :=
          ⟨start.core.latched, instruction, after.pc, after.index, after.registers⟩
        ∃ event, start.logged? = some event ∧ event.level = .trace ∧
          line.Shown event.message ∧
          event.fields = [("at", .number start.core.pc.toNat)]) ∧
      (∀ fault, start.step.value = .failed fault →
        (start.core.fetch = .ok start.core.latched ∨
          start.core.fetch = .error fault ∧ start.core.latched = start.core.opcode) ∧
        ∃ event, start.logged? = some event ∧ event.level = .warn ∧
          fault.Worded fault.message ∧
          event.message = "skipped instruction: " ++ fault.message ∧
          event.fields = [("opcode", .number start.core.latched.toNat)]) ∧
      (start.step.value = .awaitingKey →
        (∃ before, starts = before ++ [start] ∧
          log = before.filterMap logged? ++ [.waitingForKey start.core.pc]) ∧
        (∃ event, start.logged? = some event ∧ event.level = .debug ∧
          event.message = "waiting for a key" ∧
          event.fields = [("pc", .number start.core.pc.toNat)]) ∧
        start.core.fetch = .ok start.core.latched ∧
        start.core.latched.group = 0xF ∧ start.core.latched.lowByte = 0x0A) := by
  intro starts log
  have entries : log = starts.filterMap logged? := machine.report_runFrame.1
  refine ⟨stepRun_perform rfl machine, entries, fun event _ => event.tells, ?_, ?_, ?_,
    fun start started => ⟨start.core.latches_latched, fun instruction executed => ?_,
      fun fault failed => ?_, fun awaiting => ?_⟩⟩
  · rw [entries]
    exact machine.report_runFrame.2
  · rw [entries]
    exact exists_debug_iff starts
  · rw [entries]
    exact chained_batchStarts _ machine
  · obtain ⟨fetched, decoded⟩ := fetch_of_executed executed
    refine ⟨fetched, decoded, ?_⟩
    intro after line
    have entry : start.logged? = some (.executed start.core.pc line) := by
      rw [logged?, executed]
    exact ⟨_, entry, (Event.tells _).of_executed⟩
  · have entry : start.logged? = some (.skipped start.core.latched fault) := by
      rw [logged?, failed]
    refine ⟨?_, _, entry, rfl, fault.worded_message, rfl, rfl⟩
    obtain ⟨-, refused | ⟨word, fetched, -⟩⟩ := value_step_eq_failed_iff.mp failed
    · exact Or.inr ⟨refused, Core.latched_of_unfetched refused⟩
    · rw [Core.latched_of_fetched fetched]
      exact Or.inl fetched
  · have entry : start.logged? = some (.waitingForKey start.core.pc) := by
      rw [logged?, awaiting]
    obtain ⟨before, parts⟩ := batchStarts_of_not_isAttempt started (by rw [awaiting]; rfl)
    have parts : starts = before ++ [start] := parts
    have last : log = before.filterMap logged? ++ [.waitingForKey start.core.pc] := by
      rw [entries, parts, List.filterMap_append, List.filterMap_cons_some entry]
      rfl
    obtain ⟨x, fetched, decoded⟩ := fetch_of_awaitingKey awaiting
    obtain ⟨group, low, -⟩ := Instruction.decode?_eq_awaitKey_iff.mp decoded
    exact ⟨⟨before, parts, last⟩, ⟨_, entry, (Event.tells _).of_waitingForKey⟩, fetched, group, low⟩

end Machine

end ChipEight
