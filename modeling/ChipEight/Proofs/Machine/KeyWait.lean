import ChipEight.Proofs.Instruction.ReadSet
import ChipEight.Proofs.Machine.Fault
import ChipEight.Proofs.Machine.Intents
import ChipEight.Proofs.Machine.Writes
/-!
# Waiting for a key

A machine that has come to an instruction which waits for a key stays there, whatever its host
does short of loading and resetting it, as long as it takes no step while a key is held. The
first such step takes the lowest key that is held, and the wait is over.

## Main definitions

- `Machine.AtWait` — the word at the program counter waits for a key
- `Machine.Idled` — machines that only the host, the timers and the fetch have changed
- `Command.spares` — the commands that leave program and program counter to the machine
- `Response.isIdle` — what a machine answers that does nothing

## Main statements

- `Machine.AtWait.step_of_released`, `Machine.AtWait.step_of_held` — a step while no key is held,
  and one with a key
- `Machine.AtWait.perform`, `Machine.AtWait.performAll` — a command and a run
- `Machine.waits_for_key` — every wait, and its end
-/

namespace ChipEight

/-- Whether a command neither loads nor resets the machine. -/
def Command.spares (command : Command) : Bool :=
  !command.loads && command.intent? != some .reset

/-- Whether a response tells of no attempt: of a step that waited or was not taken, of a frame
without any, or of no step at all. -/
def Response.isIdle : Response → Bool
  | .stepped result => !result.isAttempt
  | .attempted count => count == 0
  | _ => true

namespace Machine

/-- The word at the program counter waits for a key and takes it into `x`. -/
structure AtWait (machine : Machine) (word : Word) (x : Register) : Prop where
  fetched : machine.core.fetch = .ok word
  decoded : Instruction.decode? word = some (.awaitKey x)

/-- Nothing differs but what the host and the timers change, and the word that was fetched. -/
def Idled (first second : Machine) : Prop :=
  ∃ opcode control redraw delay sound keypad, second = { first with core :=
    { first.core with opcode, control, redraw, delay, sound, keypad } }

/-- No step that the machine takes from there finds a key held. -/
def Unheld (start : Machine) : Prop :=
  start.core.control = .running → start.core.keypad = Keypad.released

variable {machine origin last : Machine} {others : List Machine} {word : Word} {x : Register}
  {command : Command}

namespace Idled

theorem refl (machine : Machine) : machine.Idled machine :=
  ⟨_, _, _, _, _, _, rfl⟩

theorem trans {first second third : Machine} (idled : first.Idled second)
    (idled' : second.Idled third) : first.Idled third := by
  obtain ⟨_, _, _, _, _, _, rfl⟩ := idled
  obtain ⟨_, _, _, _, _, _, rfl⟩ := idled'
  exact ⟨_, _, _, _, _, _, rfl⟩

theorem latch (machine : Machine) (word : Word) : machine.Idled (machine.latch word) :=
  ⟨_, _, _, _, _, _, rfl⟩

theorem tick (machine : Machine) : machine.Idled machine.tick :=
  ⟨_, _, _, _, _, _, rfl⟩

theorem setKeys (machine : Machine) (keypad : Keypad) : machine.Idled (machine.setKeys keypad) :=
  ⟨_, _, _, _, _, _, rfl⟩

theorem atWait (idled : origin.Idled machine) (wait : origin.AtWait word x) :
    machine.AtWait word x := by
  obtain ⟨_, _, _, _, _, _, rfl⟩ := idled
  exact ⟨wait.fetched, wait.decoded⟩

/-- A command of the host changes no other part of the machine, if it spares the program. -/
theorem perform_of_host (no_step : command.takesSteps = false) (spares : command.spares = true)
    (machine : Machine) : machine.Idled (machine.perform command).after := by
  have act := machine.hostAct_perform no_step
  generalize (machine.perform command).after = after at act ⊢
  cases act with
  | load program memory => cases spares
  | loadFrom source memory => cases spares
  | applyReset => cases spares
  | reset => cases spares
  | tick => exact .tick machine
  | press key => exact .setKeys machine _
  | release key => exact .setKeys machine _
  | setKeys keypad => exact .setKeys machine keypad
  | control intent no_reset => exact ⟨_, _, _, _, _, _, rfl⟩
  | takeFrame => exact ⟨_, _, _, _, _, _, rfl⟩

end Idled

namespace AtWait

/-- While no key is held a step waits, and remembers the word that waits. -/
theorem step_of_released (wait : machine.AtWait word x) (running : machine.core.control = .running)
    (released : machine.core.keypad = Keypad.released) :
    machine.step = { value := .awaitingKey, after := machine.latch word } := by
  have none_held : machine.core.keypad.first? = none := by rw [released]; decide
  exact (Turn.waiting running word (.awaitKey x) wait.fetched wait.decoded
    (Instruction.execute_eq_awaitingKey_iff.mpr ⟨⟨x, rfl⟩, none_held⟩)).step_eq

/-- With a key held a step takes the lowest key, and goes on. -/
theorem step_of_held (wait : machine.AtWait word x) (running : machine.core.control = .running)
    {key : Nibble} (lowest : machine.core.keypad.first? = some key) :
    machine.step.value = .executed (.awaitKey x) ∧
      machine.step.after = { machine with core :=
        { machine.core.set x (UInt8.ofNat key.val) with
          opcode := word
          pc := machine.core.pc + 2 } } := by
  have ran : (Instruction.awaitKey x).execute machine.settings.dialect
      (machine.supply (.awaitKey x)).1 (machine.latch word).core
        = .ok (.next ((machine.latch word).core.assign x (UInt8.ofNat key.val))) := by
    have lowest : (machine.latch word).core.keypad.first? = some key := lowest
    simp only [Instruction.execute, Core.receiveKey?, lowest, Option.map_some]
  rw [(Turn.executed running word _ _ wait.fetched wait.decoded ran).step_eq]
  exact ⟨rfl, rfl⟩

/-- A step that finds no key held leaves the machine waiting. -/
theorem step (wait : machine.AtWait word x) (unheld : machine.Unheld) :
    machine.Idled machine.step.after ∧ machine.step.value.isAttempt = false := by
  by_cases running : machine.core.control = .running
  · rw [wait.step_of_released running (unheld running)]
    exact ⟨.latch machine word, rfl⟩
  · rw [step_of_idle running]
    exact ⟨.refl machine, rfl⟩

/-- So do steps one after the other. -/
theorem stepRun (wait : machine.AtWait word x) (run : StepRun machine others last)
    (unheld : ∀ start ∈ others, start.Unheld) :
    machine.Idled last ∧ ∀ start ∈ others, start.AtWait word x := by
  induction run with
  | nil machine => exact ⟨.refl machine, fun _ member => by cases member⟩
  | @cons machine last others rest ih =>
    have idled := (wait.step (unheld machine List.mem_cons_self)).1
    obtain ⟨idled', waits⟩ := ih (idled.atWait wait) fun start member =>
      unheld start (List.mem_cons_of_mem _ member)
    refine ⟨idled.trans idled', fun start member => ?_⟩
    rcases List.mem_cons.mp member with rfl | later
    · exact wait
    · exact waits start later

/-- A frame counts no step that waits. -/
theorem value_runFrame (wait : machine.AtWait word x)
    (unheld : ∀ start ∈ machine.startsOf .runFrame, start.Unheld) :
    machine.runFrame.value = 0 := by
  by_cases running : machine.core.control = .running
  · rw [Machine.value_runFrame running, List.countP_eq_zero]
    intro result member
    obtain ⟨start, started, rfl⟩ := exists_start_of_mem_stepResults member
    have waits := (wait.stepRun (stepRun_attempt _ machine 0 #[]) unheld).2 start started
    rw [(waits.step (unheld start started)).2]
    exact Bool.false_ne_true
  · rw [runFrame_of_idle running]

/-- A command that spares the program leaves the machine waiting, as long as no step finds a key
held. -/
theorem perform (wait : machine.AtWait word x) (spares : command.spares = true)
    (unheld : ∀ start ∈ machine.startsOf command, start.Unheld) :
    machine.Idled (machine.perform command).after ∧
      (machine.perform command).value.isIdle = true ∧
      ∀ start ∈ machine.startsOf command, start.AtWait word x := by
  cases steps : command.takesSteps with
  | false =>
    rw [startsOf_of_not_takesSteps steps]
    refine ⟨.perform_of_host steps spares machine, ?_, fun start member => by cases member⟩
    cases command with
    | load program => cases spares
    | loadFrom source => cases spares
    | step => cases steps
    | runFrame => cases steps
    | _ => rfl
  | true =>
    obtain ⟨last, run, after⟩ := stepRun_perform steps machine
    obtain ⟨idled, waits⟩ := wait.stepRun run unheld
    refine ⟨?_, ?_, waits⟩
    · rcases after with after | after
      · rw [after]
        exact idled
      · rw [after]
        exact idled.trans (.tick last)
    · cases command with
      | step =>
        have waited := (wait.step (unheld machine List.mem_cons_self)).2
        simp only [Machine.perform, Response.isIdle, waited, Bool.not_false]
      | runFrame =>
        simp only [Machine.perform, Response.isIdle, wait.value_runFrame unheld, BEq.rfl]
      | _ => cases steps

theorem performAll {commands : List Command} (wait : machine.AtWait word x)
    (spares : ∀ command ∈ commands, command.spares = true)
    (unheld : ∀ start ∈ machine.starts commands, start.Unheld) :
    machine.Idled (machine.performAll commands).after ∧
      (∀ response ∈ (machine.performAll commands).value, response.isIdle = true) ∧
      ∀ start ∈ machine.starts commands, start.AtWait word x := by
  induction commands generalizing machine with
  | nil =>
    refine ⟨.refl machine, ?_, ?_⟩
    · intro _ member
      cases member
    · intro _ member
      cases member
  | cons command rest ih =>
    obtain ⟨idled, idle, waits⟩ := wait.perform (spares command List.mem_cons_self)
      fun start member => unheld start (List.mem_append_left _ member)
    obtain ⟨idled', idle', waits'⟩ := ih (idled.atWait wait)
      (fun other member => spares other (List.mem_cons_of_mem _ member))
      fun start member => unheld start (List.mem_append_right _ member)
    refine ⟨idled.trans idled', fun response member => ?_, fun start member => ?_⟩
    · rcases List.mem_cons.mp member with rfl | later
      · exact idle
      · exact idle' response later
    · rcases List.mem_append.mp member with now | later
      · exact waits start now
      · exact waits' start later

end AtWait

theorem StepRun.keypad_of_mem (run : StepRun machine others last) {start : Machine}
    (member : start ∈ others) : start.core.keypad = machine.core.keypad := by
  induction run with
  | nil machine => cases member
  | @cons machine _ _ rest ih =>
    rcases List.mem_cons.mp member with rfl | later
    · rfl
    · exact (ih later).trans (keypad_step machine)

/-- Steps find the keypad as it was before the command that takes them. -/
theorem keypad_of_mem_startsOf {start : Machine} (member : start ∈ machine.startsOf command) :
    start.core.keypad = machine.core.keypad := by
  cases steps : command.takesSteps with
  | false =>
    rw [startsOf_of_not_takesSteps steps] at member
    cases member
  | true =>
    obtain ⟨last, run, -⟩ := stepRun_perform steps machine
    exact run.keypad_of_mem member

/-- No step of a run finds a key held if no command makes the host hold one. -/
theorem keypad_of_mem_starts {commands : List Command}
    (unheld : ∀ command ∈ commands, command.keypadAfter Keypad.released = Keypad.released)
    (released : machine.core.keypad = Keypad.released) {start : Machine}
    (member : start ∈ machine.starts commands) : start.core.keypad = Keypad.released := by
  induction commands generalizing machine with
  | nil => cases member
  | cons command rest ih =>
    rcases List.mem_append.mp member with now | later
    · exact (keypad_of_mem_startsOf now).trans released
    · refine ih (fun other member => unheld other (List.mem_cons_of_mem _ member)) ?_ later
      rw [keypad_perform, released]
      exact unheld command List.mem_cons_self

/-- So none is held behind it. -/
theorem keypad_performAll_of_unheld {commands : List Command}
    (unheld : ∀ command ∈ commands, command.keypadAfter Keypad.released = Keypad.released)
    (released : machine.core.keypad = Keypad.released) :
    (machine.performAll commands).after.core.keypad = Keypad.released := by
  rw [keypad_performAll, released]
  induction commands with
  | nil => rfl
  | cons command rest ih =>
    rw [List.foldl_cons, unheld command List.mem_cons_self]
    exact ih fun other member => unheld other (List.mem_cons_of_mem _ member)

/-- A machine whose program counter stands at a word that waits for a key, with no key held.
Over any commands that spare the program and let no key be held, every step that it takes while
it runs waits, every frame counts nothing, and nothing but keypad, control state, timers, redraw
signal and the remembered word can differ at the end. Let then keys be held by any commands
which spare the program and take no step while it runs. If it runs behind these, the next step
puts the lowest key that is held into the register, goes on to the next instruction, remembers
the word and changes nothing else. -/
theorem waits_for_key (machine : Machine) (word : Word)
    (holds : machine.core.memory.HoldsWord machine.core.pc word)
    (waits : word.group = 0xF ∧ word.lowByte = 0x0A)
    (released : machine.core.keypad = Keypad.released) (commands : List Command)
    (spares : ∀ command ∈ commands, command.spares = true)
    (unheld : ∀ command ∈ commands,
      command.keypadAfter Keypad.released = Keypad.released) :
    let report := machine.performAll commands
    (∀ start ∈ machine.starts commands, start.core.control = .running →
      start.step.value = .awaitingKey) ∧
    (∀ response ∈ report.value, response.isIdle = true) ∧
    machine.Idled report.after ∧
    report.after.core.keypad = Keypad.released ∧
    ∀ others : List Command, (∀ command ∈ others, command.spares = true) →
      (∀ start ∈ report.after.starts others, start.core.control ≠ .running) →
      let last := (report.after.performAll others).after
      machine.Idled last ∧
      (last.core.control = .running → last.core.keypad.held ≠ [] →
        ∃ key ∈ last.core.keypad.held, (∀ lower < key, lower ∉ last.core.keypad.held) ∧
          last.step.value = .executed (.awaitKey word.x) ∧
          last.step.after = { last with core :=
            { last.core.set word.x (UInt8.ofNat key.val) with
              opcode := word
              pc := last.core.pc + 2 } }) := by
  intro report
  have wait : machine.AtWait word word.x :=
    ⟨Core.fetch_eq_ok_iff_holdsWord.mpr holds,
      Instruction.decode?_eq_awaitKey_iff.mpr ⟨waits.1, waits.2, rfl⟩⟩
  have keypads {start : Machine} (member : start ∈ machine.starts commands) :
      start.core.keypad = Keypad.released := keypad_of_mem_starts unheld released member
  obtain ⟨idled, idle, starts⟩ := wait.performAll spares fun start member _ => keypads member
  refine ⟨fun start member running => ?_, idle, idled, keypad_performAll_of_unheld unheld released,
    fun others spares' still => ?_⟩
  · rw [(starts start member).step_of_released running (keypads member)]
  · obtain ⟨idled', -, -⟩ := (idled.atWait wait).performAll spares'
      fun start member running => absurd running (still start member)
    have away := idled.trans idled'
    refine ⟨away, fun running held => ?_⟩
    cases lowest : (report.after.performAll others).after.core.keypad.first? with
    | none =>
      refine absurd (List.eq_nil_iff_forall_not_mem.mpr fun key member => ?_) held
      rw [Keypad.mem_held, Keypad.first?_eq_none_iff.mp lowest key] at member
      cases member
    | some key =>
      obtain ⟨isHeld, others⟩ := Keypad.first?_eq_some_iff.mp lowest
      obtain ⟨value, after⟩ := (away.atWait wait).step_of_held running lowest
      refine ⟨key, Keypad.mem_held.mpr isHeld, fun lower below member => ?_, value, after⟩
      rw [Keypad.mem_held, others lower below] at member
      cases member

/-- A wait with a step, a frame, a key that no keypad has, a pause and a tick in it. Two keys are
pressed before it resumes, and the lower one ends it. -/
theorem waits_for_key_across_pause :
    let machine : Machine :=
      { core := { Core.fresh with
          memory := overwrite Memory.fresh 0x200 [0xF3, 0x0A] }
        settings := {}
        random := .cycle [] }
    let commands : List Command :=
      [.step, .runFrame, .press 0x10, .apply .pause, .step, .tick, .setKeys Keypad.released]
    let others : List Command := [.press 0xC, .press 0x5, .apply .resume]
    let last := ((machine.performAll commands).after.performAll others).after
    machine.Idled last ∧
      last.step.value = .executed (.awaitKey 3) ∧
      last.step.after.core.registers[3] = 5 ∧
      last.step.after.core.pc = 0x202 := by
  intro machine commands others last
  have holds : machine.core.memory.HoldsWord machine.core.pc 0xF30A :=
    ⟨by decide, by decide +kernel⟩
  have released : machine.core.keypad = Keypad.released := rfl
  obtain ⟨-, -, -, -, ends⟩ := machine.waits_for_key 0xF30A holds (by decide) released commands
    (by decide) (by decide)
  obtain ⟨idled, taken⟩ := ends others (by decide) (by decide +kernel)
  obtain ⟨key, -, -, value, -⟩ := taken (by decide +kernel) (by decide +kernel)
  exact ⟨idled, value, by decide +kernel, by decide +kernel⟩

end Machine

end ChipEight
