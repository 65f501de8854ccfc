import ChipEight.Proofs.Machine.Calls
import ChipEight.Proofs.Machine.Coupling
import ChipEight.Proofs.Machine.Likeness
/-!
# Noninterference

The read sets of instructions carried over to runs. Two machines that one part of the core
tells apart are told apart by that part alone for as long as no step reads it, whatever is
done to both of them; what no instruction reads never matters to anything else.

## Main definitions

- `StepResult.reads` — the parts that a step has read
- `Response.forget` — a response without what it says about a part
- `Machine.SameBut` — machines that one part alone tells apart

## Main statements

- `Machine.SameBut.step`, `Machine.coupling_sameBut` — steps, and acts of the host
- `Machine.SameBut.performAll` — runs that do not read the part
- `Machine.reads_confined` — all parts, with the instructions that read them
-/

namespace ChipEight

open ChipEight.Core (Part)

/-- Whether a step has read a part. An instruction that waits has looked at the keypad, and
one that fails at no part at all. -/
def StepResult.reads : StepResult → Part → Bool
  | .executed instruction, part => instruction.reads part
  | .awaitingKey, part => part = .keypad
  | _, _ => false

/-- The response with what it says about a part left out. The signal decides whether a picture
is handed out, and the screen which one. -/
def Response.forget : Part → Response → Response
  | .redraw, .frame _ => .frame none
  | .screen, .frame picture => .frame (picture.map fun _ => Screen.blank)
  | _, response => response

theorem StepResult.reads_eq_false {part : Part} (unread : part.isRead = false)
    (result : StepResult) : result.reads part = false := by
  cases result with
  | executed instruction => exact instruction.reads_eq_false unread
  | awaitingKey =>
    cases part with
    | keypad => cases unread
    | _ => rfl
  | _ => rfl

theorem Response.map_forget_eq_self {part : Part} (redraw : part ≠ .redraw)
    (screen : part ≠ .screen) (responses : List Response) :
    responses.map (Response.forget part) = responses := by
  refine List.map_id'' (fun response => ?_) responses
  cases part with
  | redraw => exact absurd rfl redraw
  | screen => exact absurd rfl screen
  | _ => rfl

/-- Cores that three parts tell apart, one after the other. -/
theorem Core.eq_of_unread_parts {first second third fourth : Core}
    (sound : SameBut .sound first second) (opcode : SameBut .opcode second third)
    (redraw : SameBut .redraw third fourth) :
    fourth = { first with
      sound := fourth.sound, opcode := fourth.opcode, redraw := fourth.redraw } := by
  have same : ((fourth.forget .redraw).forget .opcode).forget .sound
      = ((first.forget .redraw).forget .opcode).forget .sound :=
    calc ((fourth.forget .redraw).forget .opcode).forget .sound
        = ((third.forget .opcode).forget .redraw).forget .sound :=
          redraw.congr fun core => (core.forget .opcode).forget .sound
      _ = ((second.forget .sound).forget .redraw).forget .opcode :=
          opcode.congr fun core => (core.forget .redraw).forget .sound
      _ = ((first.forget .sound).forget .redraw).forget .opcode :=
          sound.congr fun core => (core.forget .redraw).forget .opcode
      _ = ((first.forget .redraw).forget .opcode).forget .sound := rfl
  exact congrArg (fun core : Core => { core with
    sound := fourth.sound, opcode := fourth.opcode, redraw := fourth.redraw }) same

namespace Machine

/-- The part alone tells the machines apart. -/
structure SameBut (part : Part) (first second : Machine) : Prop where
  core : Core.SameBut part first.core second.core
  settings : second.settings = first.settings
  random : second.random = first.random

variable {part : Part} {first second : Machine}

/-- The instruction that comes up treats both machines alike, since it does not read the part
unless it fails. -/
theorem SameBut.treatsAlike (same : SameBut part first second)
    (unread : first.step.value.reads part = false) :
    TreatsAlike (Core.SameBut part) first second := by
  intro word instruction running fetched decoded
  have latched := (Core.likeness_sameBut part).latch word same.core
  rw [same.settings]
  cases outcome : instruction.execute first.settings.dialect (first.supply instruction).1
      (first.latch word).core with
  | error fault =>
    have refused : instruction.execute first.settings.dialect (first.supply instruction).1
        (second.latch word).core = .error fault :=
      Instruction.execute_error_congr latched.index_eq latched.sp_eq latched.pc_eq outcome
    rw [refused]
    exact .failed fault
  | ok result =>
    have quiet : instruction.reads part = false := by
      cases result with
      | next core =>
        rw [Turn.step_eq (.executed running word instruction core fetched decoded outcome)]
          at unread
        exact unread
      | awaitingKey =>
        rw [Turn.step_eq (.waiting running word instruction fetched decoded outcome)] at unread
        obtain ⟨x, rfl⟩ := Instruction.eq_awaitKey_of_execute outcome
        cases part with
        | keypad => cases unread
        | _ => rfl
    rw [← outcome]
    exact Instruction.execute_alike_of_unread quiet latched

/-- A step that does not read the part goes the same way. -/
theorem SameBut.step (same : SameBut part first second)
    (unread : first.step.value.reads part = false) :
    second.step.value = first.step.value ∧ SameBut part first.step.after second.step.after := by
  obtain ⟨value, core, random⟩ := step_alike (Core.likeness_sameBut part) same.core same.random
    (same.treatsAlike unread)
  refine ⟨value, core, ?_, random⟩
  rw [settings_step, settings_step, same.settings]

/-- A change of the core to which the part does not matter. -/
theorem SameBut.map (same : SameBut part first second) (change : Core → Core)
    (blind : ∀ core, (change core).forget part = (change (core.forget part)).forget part) :
    SameBut part { first with core := change first.core }
      { second with core := change second.core } :=
  ⟨same.core.map change blind, same.settings, same.random⟩

/-- The pictures that are handed out agree in what is not the part. -/
theorem SameBut.frame (same : SameBut part first second) :
    Response.forget part (.frame second.takeFrame.value)
      = Response.forget part (.frame first.takeFrame.value) := by
  cases part with
  | redraw => rfl
  | screen =>
    have signal : second.core.redraw = first.core.redraw := same.core.congr Core.redraw
    simp only [takeFrame, signal]
    split <;> rfl
  | _ =>
    have signal : second.core.redraw = first.core.redraw := same.core.congr Core.redraw
    have picture : second.core.screen = first.core.screen := same.core.congr Core.screen
    simp only [takeFrame, signal, picture]
    split <;> rfl

theorem coupling_sameBut (part : Part) :
    Coupling (SameBut part) (fun start => start.step.value.reads part = false)
      (Response.forget part) where
  control same := same.core.control_eq
  memory same := same.core.memory_eq
  speed same := by rw [same.settings]
  step same unread := same.step unread
  tick same := same.map Core.tick fun core => by cases part <;> rfl
  load memory same := same.map (fun core => { core with memory }) fun core => by
    cases part <;> rfl
  setKeys change same := same.map (fun core => { core with keypad := change core.keypad })
    fun core => by cases part <;> rfl
  setControl control same := same.map (fun core => { core with control }) fun core => by
    cases part <;> rfl
  reset same := same.map Core.reset fun core => by cases part <;> rfl
  lowerRedraw same := same.map (fun core => { core with redraw := false }) fun core => by
    cases part <;> rfl
  frame same := same.frame

/-- As long as no step reads the part, it alone tells the machines apart over a run. -/
theorem SameBut.performAll (same : SameBut part first second) (commands : List Command)
    (unread : ∀ start ∈ first.starts commands, start.step.value.reads part = false) :
    (second.performAll commands).value.map (Response.forget part)
        = (first.performAll commands).value.map (Response.forget part) ∧
      SameBut part (first.performAll commands).after (second.performAll commands).after :=
  (coupling_sameBut part).performAll commands same unread

/-- Where the part has nothing to do with pictures, all responses are the same. -/
theorem SameBut.value_performAll (same : SameBut part first second) (commands : List Command)
    (redraw : part ≠ .redraw) (screen : part ≠ .screen)
    (unread : ∀ start ∈ first.starts commands, start.step.value.reads part = false) :
    (second.performAll commands).value = (first.performAll commands).value := by
  have values := (same.performAll commands unread).1
  rwa [Response.map_forget_eq_self redraw screen,
    Response.map_forget_eq_self redraw screen] at values

theorem eq_of_core {core : Core} (h : second.core = core)
    (settings : second.settings = first.settings) (random : second.random = first.random) :
    second = { first with core } := by
  cases second
  cases h
  cases settings
  cases random
  rfl

theorem pending?_of_awaitingKey {machine : Machine}
    (awaiting : machine.step.value = .awaitingKey) : ∃ x, machine.pending? = some (.awaitKey x) := by
  have turn := machine.turn_step
  generalize machine.step = report at turn awaiting
  cases turn with
  | waiting running word instruction fetched decoded waits =>
    obtain ⟨x, rfl⟩ := Instruction.eq_awaitKey_of_execute waits
    exact ⟨x, (pending?_of_fetched running fetched).trans decoded⟩
  | _ => cases awaiting

/-- An instruction that looks at the keypad has come up if a step has read the keypad. -/
theorem reads_keypad_eq_false {machine : Machine}
    (unreached : ∀ x, machine.pending? ≠ some (.skipKey x) ∧
      machine.pending? ≠ some (.skipNoKey x) ∧ machine.pending? ≠ some (.awaitKey x)) :
    machine.step.value.reads .keypad = false := by
  cases value : machine.step.value with
  | executed instruction =>
    have pending := pending?_of_executed value
    cases instruction with
    | skipKey x => exact absurd pending (unreached x).1
    | skipNoKey x => exact absurd pending (unreached x).2.1
    | awaitKey x => exact absurd pending (unreached x).2.2
    | _ => rfl
  | awaitingKey =>
    obtain ⟨x, pending⟩ := pending?_of_awaitingKey value
    exact absurd pending (unreached x).2.2
  | _ => rfl

/-- An instruction that draws has run if a step has read the picture. -/
theorem reads_screen_eq_false {machine : Machine}
    (undrawn : ∀ x y height, machine.step.value ≠ .executed (.draw x y height)) :
    machine.step.value.reads .screen = false := by
  cases value : machine.step.value with
  | executed instruction =>
    cases instruction with
    | draw x y height => exact absurd value (undrawn x y height)
    | _ => rfl
  | _ => rfl

theorem reads_delay_eq_false {machine : Machine}
    (no_read : ∀ x, machine.step.value ≠ .executed (.getDelay x)) :
    machine.step.value.reads .delay = false := by
  cases value : machine.step.value with
  | executed instruction =>
    cases instruction with
    | getDelay x => exact absurd value (no_read x)
    | _ => rfl
  | _ => rfl

/-- The parts that no instruction reads have no effect on anything else. -/
theorem performAll_of_unread_parts (machine : Machine) (sound : Byte) (opcode : Word)
    (redraw : Bool) (commands : List Command) :
    let run := machine.performAll commands
    let other := { machine with core := { machine.core with sound, opcode, redraw } }
    let otherRun := other.performAll commands
    otherRun.value.map (Response.forget .redraw) = run.value.map (Response.forget .redraw) ∧
      otherRun.after = { run.after with core := { run.after.core with
        sound := otherRun.after.core.sound
        opcode := otherRun.after.core.opcode
        redraw := otherRun.after.core.redraw } } := by
  intro run other otherRun
  -- one part after the other
  let one : Machine := { machine with core := { machine.core with sound } }
  let two : Machine := { machine with core := { machine.core with sound, opcode } }
  have toOne : SameBut .sound machine one := ⟨rfl, rfl, rfl⟩
  have toTwo : SameBut .opcode one two := ⟨rfl, rfl, rfl⟩
  have toOther : SameBut .redraw two other := ⟨rfl, rfl, rfl⟩
  have unread (part : Part) (h : part.isRead = false) (start : Machine) :
      start.step.value.reads part = false := start.step.value.reads_eq_false h
  have oneValue := toOne.value_performAll commands (by decide) (by decide)
    fun start _ => unread .sound rfl start
  have twoValue := toTwo.value_performAll commands (by decide) (by decide)
    fun start _ => unread .opcode rfl start
  have oneAfter := (toOne.performAll commands fun start _ => unread .sound rfl start).2
  have twoAfter := (toTwo.performAll commands fun start _ => unread .opcode rfl start).2
  obtain ⟨value, after⟩ := toOther.performAll commands fun start _ => unread .redraw rfl start
  refine ⟨by rw [value, twoValue, oneValue], ?_⟩
  have core := Core.eq_of_unread_parts oneAfter.core twoAfter.core after.core
  obtain ⟨_, settings, random⟩ := after
  rw [twoAfter.settings, oneAfter.settings] at settings
  rw [twoAfter.random, oneAfter.random] at random
  exact eq_of_core core settings random

/-- What a part of the core has an effect on, over any run of any machine.

The sound timer, the word remembered and the signal have none at all, except that the signal
decides whether a picture is handed out. The delay timer has none until its instruction is
executed, the keypad none until one of its instructions comes up, and the picture none until
something is drawn on it, except that it is what is handed out. -/
theorem reads_confined (machine : Machine) (commands : List Command) :
    let run := machine.performAll commands
    let starts := machine.starts commands
    (∀ (sound : Byte) (opcode : Word) (redraw : Bool),
      let other := { machine with core := { machine.core with sound, opcode, redraw } }
      let otherRun := other.performAll commands
      otherRun.value.map (Response.forget .redraw) = run.value.map (Response.forget .redraw) ∧
        otherRun.after = { run.after with core := { run.after.core with
          sound := otherRun.after.core.sound
          opcode := otherRun.after.core.opcode
          redraw := otherRun.after.core.redraw } }) ∧
    (∀ delay : Byte, (∀ start ∈ starts, ∀ x, start.step.value ≠ .executed (.getDelay x)) →
      let other := { machine with core := { machine.core with delay } }
      let otherRun := other.performAll commands
      otherRun.value = run.value ∧
        otherRun.after = { run.after with core := { run.after.core with
          delay := otherRun.after.core.delay } }) ∧
    (∀ keypad : Keypad, (∀ start ∈ starts, ∀ x, start.pending? ≠ some (.skipKey x) ∧
        start.pending? ≠ some (.skipNoKey x) ∧ start.pending? ≠ some (.awaitKey x)) →
      let other := { machine with core := { machine.core with keypad } }
      let otherRun := other.performAll commands
      otherRun.value = run.value ∧
        otherRun.after = { run.after with core := { run.after.core with
          keypad := otherRun.after.core.keypad } }) ∧
    (∀ screen : Screen,
      (∀ start ∈ starts, ∀ x y height, start.step.value ≠ .executed (.draw x y height)) →
      let other := { machine with core := { machine.core with screen } }
      let otherRun := other.performAll commands
      otherRun.value.map (Response.forget .screen) = run.value.map (Response.forget .screen) ∧
        otherRun.after = { run.after with core := { run.after.core with
          screen := otherRun.after.core.screen } }) := by
  intro run starts
  refine ⟨?_, ?_, ?_, ?_⟩
  · intro sound opcode redraw
    exact performAll_of_unread_parts machine sound opcode redraw commands
  · intro delay no_read other otherRun
    have same : SameBut .delay machine other := ⟨rfl, rfl, rfl⟩
    have unread := fun start member => reads_delay_eq_false (no_read start member)
    have after := (same.performAll commands unread).2
    refine ⟨same.value_performAll commands (by decide) (by decide) unread, ?_⟩
    refine eq_of_core ?_ after.settings after.random
    exact after.core.congr fun core => { core with delay := otherRun.after.core.delay }
  · intro keypad unreached other otherRun
    have same : SameBut .keypad machine other := ⟨rfl, rfl, rfl⟩
    have unread := fun start member => reads_keypad_eq_false (unreached start member)
    have after := (same.performAll commands unread).2
    refine ⟨same.value_performAll commands (by decide) (by decide) unread, ?_⟩
    refine eq_of_core ?_ after.settings after.random
    exact after.core.congr fun core => { core with keypad := otherRun.after.core.keypad }
  · intro screen undrawn other otherRun
    have same : SameBut .screen machine other := ⟨rfl, rfl, rfl⟩
    have unread := fun start member => reads_screen_eq_false (undrawn start member)
    obtain ⟨value, after⟩ := same.performAll commands unread
    refine ⟨value, eq_of_core ?_ after.settings after.random⟩
    exact after.core.congr fun core => { core with screen := otherRun.after.core.screen }

/-- A run through a call, a random byte and a word that is no instruction, with the timers
ticking and a picture asked for: another delay timer, other keys and another picture before it
are still there behind it, and have changed nothing else. -/
theorem reads_confined_across_failure :
    let machine := switchedOn { instructionsPerFrame := 4 } (.cycle [0x2A])
    let commands : List Command :=
      [.load [0x22, 0x02, 0xC1, 0xFF, 0xFF, 0xFF, 0x12, 0x02], .runFrame, .tick, .takeFrame]
    let starts := machine.starts commands
    let run := machine.performAll commands
    let late := { machine with core := { machine.core with delay := 9 } }.performAll commands
    let keypad := Keypad.released.press 7
    let held := { machine with core := { machine.core with keypad } }.performAll commands
    let screen := Screen.blank.flip ⟨3, 4⟩
    let lit := { machine with core := { machine.core with screen } }.performAll commands
    (∀ start ∈ starts, ∀ x, start.step.value ≠ .executed (.getDelay x)) ∧
      (∀ start ∈ starts, ∀ x, start.pending? ≠ some (.skipKey x) ∧
        start.pending? ≠ some (.skipNoKey x) ∧ start.pending? ≠ some (.awaitKey x)) ∧
      (∀ start ∈ starts, ∀ x y height, start.step.value ≠ .executed (.draw x y height)) ∧
      (late.after.core.delay = 7 ∧ late.value = run.value ∧
        late.after = { run.after with core := { run.after.core with
          delay := late.after.core.delay } }) ∧
      (held.value = run.value ∧
        held.after = { run.after with core := { run.after.core with
          keypad := held.after.core.keypad } }) ∧
      (lit.value.map (Response.forget .screen) = run.value.map (Response.forget .screen) ∧
        lit.after = { run.after with core := { run.after.core with
          screen := lit.after.core.screen } }) := by
  intro machine commands starts run late keypad held screen lit
  obtain ⟨quiet, unreached, delayed⟩ :
      (∀ start ∈ starts, start.step.value.reads .delay = false ∧
        start.step.value.reads .screen = false) ∧
      (∀ start ∈ starts, ∀ x, start.pending? ≠ some (.skipKey x) ∧
        start.pending? ≠ some (.skipNoKey x) ∧ start.pending? ≠ some (.awaitKey x)) ∧
      late.after.core.delay = 7 := by decide +kernel
  have no_read : ∀ start ∈ starts, ∀ x, start.step.value ≠ .executed (.getDelay x) := by
    intro start member x executed
    have unread := (quiet start member).1
    rw [executed] at unread
    cases unread
  have undrawn : ∀ start ∈ starts, ∀ x y height,
      start.step.value ≠ .executed (.draw x y height) := by
    intro start member x y height executed
    have unread := (quiet start member).2
    rw [executed] at unread
    cases unread
  obtain ⟨_, delay, keys, picture⟩ := reads_confined machine commands
  exact ⟨no_read, unreached, undrawn, ⟨delayed, delay 9 no_read⟩,
    keys keypad unreached, picture screen undrawn⟩

end Machine

end ChipEight
