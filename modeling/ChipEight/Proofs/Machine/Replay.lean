import ChipEight.Proofs.Machine.Equipment
import ChipEight.Proofs.Machine.FrameSize
import ChipEight.Proofs.Machine.Writes
/-!
# Resets

A reset takes the machine back to where it stood when its program was loaded. The timers and
the random words alone carry on, and these matter to two instructions: what is done to the
machine behind the reset goes as it went behind the load, until one of the two is executed.

## Main definitions

- `Machine.SameButClocks` — machines that only timers and random words tell apart

## Main statements

- `Machine.SameButClocks.step`, `Machine.coupling_sameButClocks` — steps, and acts of the host
- `Machine.exists_loaded` — the machine behind a load
- `Machine.reset_replays` — every run behind a reset
-/

namespace ChipEight

namespace Machine

/-- Machines that are told apart only by their timers and their random words. -/
structure SameButClocks (first second : Machine) : Prop where
  core : Core.SameUntimed first.core second.core
  settings : second.settings = first.settings

variable {first second : Machine}

/-- A step that neither looks at a timer nor draws a random byte goes the same way. -/
theorem SameButClocks.step (same : SameButClocks first second)
    (no_read : first.step.value.readsDelay = false)
    (no_draw : first.step.value.drawsRandom = false) :
    second.step.value = first.step.value ∧
      SameButClocks first.step.after second.step.after := by
  -- first the timers of the second machine, then its random words
  let middle := second.equip second.settings first.random
  have timers : SameButTimers first middle :=
    ⟨same.core, congrArg Settings.dialect same.settings, rfl⟩
  obtain ⟨value, after⟩ := timers.step no_read
  have suits : ∀ instruction, middle.step.value = .executed instruction →
      middle.Suits second.settings second.random instruction := by
    intro instruction executed
    rw [← value, executed] at no_draw
    refine { undisputed := instruction.disputed_self _, byte := fun draws => ?_ }
    rw [StepResult.drawsRandom_executed, draws] at no_draw
    cases no_draw
  obtain ⟨value', after'⟩ := step_equip suits
  have whole : middle.equip second.settings second.random = second := rfl
  rw [whole] at value' after'
  refine ⟨value'.trans value, ?_, ?_⟩
  · rw [after']
    exact after.core
  · rw [settings_step, settings_step, same.settings]

theorem coupling_sameButClocks :
    Coupling SameButClocks (fun start =>
      start.step.value.readsDelay = false ∧ start.step.value.drawsRandom = false) id where
  control same := same.core.congr Core.control
  memory same := same.core.congr Core.memory
  speed same := congrArg Settings.instructionsPerFrame same.settings
  step same safe := same.step safe.1 safe.2
  tick same := ⟨same.core, same.settings⟩
  load memory same :=
    ⟨same.core.map (fun core => { core with memory }) fun _ => rfl, same.settings⟩
  setKeys change same :=
    ⟨same.core.map (fun core => { core with keypad := change core.keypad }) fun _ => rfl,
      same.settings⟩
  setControl control same :=
    ⟨same.core.map (fun core => { core with control }) fun _ => rfl, same.settings⟩
  reset same := ⟨same.core.map Core.reset fun _ => rfl, same.settings⟩
  lowerRedraw same :=
    ⟨same.core.map (fun core => { core with redraw := false }) fun _ => rfl, same.settings⟩
  frame {first second} same := by
    have signal : second.core.redraw = first.core.redraw := same.core.congr Core.redraw
    have picture : second.core.screen = first.core.screen := same.core.congr Core.screen
    simp only [takeFrame, signal, picture]
    split <;> rfl

/-- A program that was just loaded stands in memory, and all else is fresh. -/
theorem exists_loaded (settings : Settings) (random : WordStream) (program : List Byte) :
    ∃ memory, ((switchedOn settings random).perform (.load program)).after
      = { switchedOn settings random with core := { Core.fresh with memory } } :=
  (switchedOn settings random).after_perform_load program

/-- Steps that run no instruction which stores leave memory as it was loaded. -/
theorem memory_performAll_of_unstored {machine : Machine} {commands : List Command}
    (no_load : ∀ command ∈ commands, command.loads = false)
    (unstored : ∀ start ∈ machine.starts commands, ∀ x,
      start.step.value ≠ .executed (.decimal x) ∧ start.step.value ≠ .executed (.store x)) :
    (machine.performAll commands).after.core.memory = machine.core.memory := by
  apply Vector.ext
  intro address h
  refine Decidable.byContradiction fun changed => ?_
  obtain ⟨start, member, instruction, executed, stores⟩ :=
    exists_stores_of_memory_ne no_load h changed
  cases instruction with
  | decimal x => exact (unstored start member x).1 executed
  | store x => exact (unstored start member x).2 executed
  | _ => exact stores

/-- What a reset makes of a machine. A reset takes every machine back to where its program was
loaded, if its memory is still as it was then, and it does so up to the timers and the random
words, which carry on. Whatever is done to it from there on goes the same way, command by
command, as long as no instruction looks at a timer or draws a random byte. To reset twice is
to reset once, and a reset may come before a load or a tick as well as behind it. -/
theorem reset_replays (settings : Settings) (random : WordStream) (program : List Byte)
    (history : List Command) :
    let loaded := ((switchedOn settings random).perform (.load program)).after
    let ran := (loaded.performAll history).after
    let restarted := ran.reset.after
    (ran.core.memory = loaded.core.memory →
      restarted.core = { loaded.core with delay := ran.core.delay, sound := ran.core.sound } ∧
      restarted.settings = loaded.settings ∧
      ∀ further : List Command,
        (∀ start ∈ loaded.starts further,
          start.step.value.readsDelay = false ∧ start.step.value.drawsRandom = false) →
        ∀ done, done <+: further →
          let replay := restarted.performAll done
          let play := loaded.performAll done
          replay.value = play.value ∧
          replay.after.core = { play.after.core with
            delay := replay.after.core.delay, sound := replay.after.core.sound }) ∧
    ((∀ command ∈ history, command.loads = false) →
      (∀ start ∈ loaded.starts history, ∀ x,
        start.step.value ≠ .executed (.decimal x) ∧ start.step.value ≠ .executed (.store x)) →
      ran.core.memory = loaded.core.memory) ∧
    ∀ machine : Machine,
      machine.reset.after.reset.after = machine.reset.after ∧
      (∀ program : List Byte,
        (machine.reset.after.perform (.load program)).after
          = (machine.perform (.load program)).after.reset.after ∧
        (machine.reset.after.perform (.load program)).value
          = (machine.perform (.load program)).value) ∧
      machine.reset.after.tick = machine.tick.reset.after := by
  intro loaded ran restarted
  obtain ⟨memory, is_loaded⟩ := exists_loaded settings random program
  refine ⟨fun kept => ?_, memory_performAll_of_unstored, fun machine => ⟨rfl, ?_, rfl⟩⟩
  · have core : restarted.core
        = { loaded.core with delay := ran.core.delay, sound := ran.core.sound } := by
      show ran.core.reset = _
      rw [Core.reset, kept, show loaded = _ from is_loaded]
    have same : SameButClocks loaded restarted := by
      refine ⟨?_, settings_performAll loaded history⟩
      rw [core]
      rfl
    refine ⟨core, same.settings, fun further safe done before => ?_⟩
    obtain ⟨later, rfl⟩ := before
    obtain ⟨value, after⟩ := coupling_sameButClocks.performAll done same fun start member =>
      safe start (by rw [starts_append]; exact List.mem_append_left _ member)
    rw [List.map_id, List.map_id] at value
    exact ⟨value, after.core.eq⟩
  · intro program
    simp only [perform, load, Core.load, reset, Core.reset]
    cases machine.core.memory.load program with
    | error error => exact ⟨rfl, rfl⟩
    | ok memory => exact ⟨rfl, rfl⟩

/-- A program that calls, sets the delay timer, draws a picture and a random byte and waits for
a key, halted in the middle of its call: behind the reset its first steps go as they went
before, though the timer still runs. -/
theorem reset_replays_from_subroutine :
    let settings : Settings := { instructionsPerFrame := 6 }
    let random : WordStream := .cycle [0x2A]
    let program : List Byte :=
      [0x22, 0x02, 0x6A, 0x05, 0xFA, 0x15, 0xD0, 0x05, 0xC1, 0xFF, 0xF2, 0x0A]
    let history : List Command := [.press 4, .runFrame, .apply .halt]
    let loaded := ((switchedOn settings random).perform (.load program)).after
    let ran := (loaded.performAll history).after
    let restarted := ran.reset.after
    let further : List Command := [.step, .step, .tick, .step, .step, .takeFrame]
    ran.core.depth = 1 ∧ ran.random.drawn = 1 ∧ restarted.core.delay = 4 ∧
      ran.core.memory = loaded.core.memory ∧
      (∀ start ∈ loaded.starts further,
        start.step.value.readsDelay = false ∧ start.step.value.drawsRandom = false) ∧
      let replay := restarted.performAll further
      let play := loaded.performAll further
      replay.value = play.value ∧
        replay.after.core = { play.after.core with
          delay := replay.after.core.delay, sound := replay.after.core.sound } := by
  intro settings random program history loaded ran restarted further
  obtain ⟨depth, drawn, delay, unstored, safe⟩ :
      ran.core.depth = 1 ∧ ran.random.drawn = 1 ∧ restarted.core.delay = 4 ∧
      (∀ start ∈ loaded.starts history, ∀ x,
        start.step.value ≠ .executed (.decimal x) ∧ start.step.value ≠ .executed (.store x)) ∧
      ∀ start ∈ loaded.starts further,
        start.step.value.readsDelay = false ∧ start.step.value.drawsRandom = false := by
    decide +kernel
  obtain ⟨replays, kept, _⟩ := reset_replays settings random program history
  have same : ran.core.memory = loaded.core.memory := kept (by decide) unstored
  obtain ⟨_, _, again⟩ := replays same
  refine ⟨depth, drawn, delay, same, safe, ?_⟩
  -- the machines are spelled out, so that none of them has to be computed
  simpa only [restarted, ran, loaded] using again further safe further (List.prefix_refl _)

end Machine

end ChipEight
