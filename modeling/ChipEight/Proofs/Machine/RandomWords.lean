import ChipEight.Proofs.Instruction.WriteSet
import ChipEight.Proofs.Machine.Equipment
import ChipEight.Proofs.Machine.Host
/-!
# Accounting for random words

Which word of the stream becomes which random byte. Words are taken in turn, one by each
executed instruction that asks for a random byte, and nothing else takes one or gives one back.

## Main definitions

- `WordStream.skip` — a stream with more words used up
- `Machine.rolls` — how many steps draw a random byte
- `Machine.Supplied` — machines that pass on the stream from step to step

## Main statements

- `Machine.Supplied.eq_skip`, `Machine.supplied_starts` — the stream behind steps and behind a
  run
- `Machine.get_step_of_random` — the byte that a draw leaves in its register
- `Machine.coupling_reseeded` — runs from different streams
- `Machine.random_words_accounted` — every word of every run
-/

namespace ChipEight

/-- The stream with so many more words used up. -/
def WordStream.skip (random : WordStream) (count : Nat) : WordStream :=
  { random with drawn := random.drawn + count }

namespace WordStream

theorem skip_skip (random : WordStream) (first second : Nat) :
    (random.skip first).skip second = random.skip (first + second) := by
  simp only [skip, Nat.add_assoc]

theorem behind_eq_skip (random : WordStream) (result : StepResult) :
    random.behind result = random.skip (if result.drawsRandom then 1 else 0) := by
  rw [behind]
  split
  · rfl
  · rfl

end WordStream

namespace Machine

variable {machine last : Machine} {starts before later : List Machine}
  {random between behind : WordStream}

/-- How many of the steps from the listed machines draw a random byte. -/
def rolls (starts : List Machine) : Nat :=
  starts.countP fun start => start.step.value.drawsRandom

theorem rolls_eq_zero_iff :
    rolls starts = 0 ↔ ∀ start ∈ starts, start.step.value.drawsRandom = false := by
  simp [rolls, List.countP_eq_zero]

/-- Each of the listed machines has the stream that the step from the one before has left. -/
inductive Supplied : WordStream → List Machine → WordStream → Prop where
  | nil (random : WordStream) : Supplied random [] random
  | cons {start : Machine} {others : List Machine} {behind : WordStream}
      (rest : Supplied start.step.after.random others behind) :
      Supplied start.random (start :: others) behind

namespace Supplied

theorem append (supplied : Supplied random before between)
    (rest : Supplied between later behind) : Supplied random (before ++ later) behind := by
  induction supplied with
  | nil random => exact rest
  | cons _ ih => exact .cons (ih rest)

theorem of_stepRun (run : StepRun machine starts last) :
    Supplied machine.random starts last.random := by
  induction run with
  | nil machine => exact .nil _
  | cons _ ih => exact .cons ih

/-- The stream moves on by one word for every draw. -/
theorem eq_skip (supplied : Supplied random starts behind) :
    behind = random.skip (rolls starts) := by
  induction supplied with
  | nil random => rfl
  | cons _ ih =>
    rw [ih, random_step, WordStream.behind_eq_skip, WordStream.skip_skip, rolls, rolls,
      List.countP_cons, Nat.add_comm]

/-- The stream with which one of the machines sets out. -/
theorem before_start {start : Machine}
    (supplied : Supplied random (before ++ start :: later) behind) :
    Supplied random before start.random := by
  induction before generalizing random with
  | nil =>
    cases supplied with
    | cons => exact .nil _
  | cons first others ih =>
    cases supplied with
    | cons rest => exact .cons (ih rest)

end Supplied

/-- What the host does takes no random word and gives none back. -/
theorem random_perform_of_host {command : Command} (no_step : command.takesSteps = false)
    (machine : Machine) : (machine.perform command).after.random = machine.random := by
  have act := machine.hostAct_perform no_step
  generalize (machine.perform command).after = after at act ⊢
  cases act <;> rfl

theorem supplied_startsOf (machine : Machine) (command : Command) :
    Supplied machine.random (machine.startsOf command) (machine.perform command).after.random := by
  cases steps : command.takesSteps with
  | false =>
    rw [startsOf_of_not_takesSteps steps, random_perform_of_host steps]
    exact .nil _
  | true =>
    obtain ⟨last, delay, sound, run, after⟩ := after_perform_of_takesSteps steps machine
    have supplied := Supplied.of_stepRun run
    rw [after]
    exact supplied

theorem supplied_starts (machine : Machine) (commands : List Command) :
    Supplied machine.random (machine.starts commands)
      (machine.performAll commands).after.random := by
  induction commands generalizing machine with
  | nil => exact .nil _
  | cons command rest ih => exact (machine.supplied_startsOf command).append (ih _)

/-- The instruction that draws leaves in its register what its mask lets through of the lowest
byte of the next word. -/
theorem get_step_of_random {x : Register} {mask : Byte}
    (executed : machine.step.value = .executed (.random x mask)) :
    machine.step.after.core.get x
      = (machine.random.word machine.random.drawn).toUInt8 &&& mask := by
  have turn := machine.turn_step
  generalize machine.step = report at turn executed ⊢
  cases turn with
  | executed running word instruction core fetched decoded ran =>
    cases executed
    cases ran
    exact (Core.get_assign x x _ _).trans (if_pos rfl)
  | _ => cases executed

/-- Until a random byte is drawn, machines that differ in their seeds and streams alone come
to the same. -/
theorem coupling_reseeded (settings : Settings) (seed : Option UInt64) (random : WordStream) :
    Coupling (Equipped settings { settings with seed } fun _ => random)
      (fun start => start.step.value.drawsRandom = false) id := by
  refine coupling_equipped rfl ?_ fun start quiet => (WordStream.behind_of_quiet quiet random).symm
  intro start given quiet instruction executed
  rw [executed] at quiet
  refine { undisputed := ?_, byte := fun draws => ?_ }
  · rw [given]
    exact instruction.disputed_self settings.dialect
  · rw [StepResult.drawsRandom_executed, draws] at quiet
    cases quiet

/-- Every random word of every run. A run uses up one word for each draw, a draw behind `k`
others gets the lowest byte of word `k`, counted from the position of the stream, and no step
but a draw moves that position. So two machines that differ in their seeds and streams alone
keep abreast until one of them draws. -/
theorem random_words_accounted (machine : Machine) (commands : List Command) :
    let starts := machine.starts commands
    let run := machine.performAll commands
    run.after.random = machine.random.skip (rolls starts) ∧
    (∀ before start later, starts = before ++ start :: later →
      start.random = machine.random.skip (rolls before) ∧
      ∀ x mask, start.step.value = .executed (.random x mask) →
        start.step.after.core.get x
          = (machine.random.word (machine.random.drawn + rolls before)).toUInt8 &&& mask) ∧
    ∀ (seed : Option UInt64) (random : WordStream),
      let reseeded (machine : Machine) := machine.equip { machine.settings with seed } random
      let otherRun := (reseeded machine).performAll commands
      Abreast (fun first second => second = reseeded first)
        (fun start => start.step.value.drawsRandom = false)
        starts ((reseeded machine).starts commands) ∧
      (rolls starts = 0 → otherRun.value = run.value ∧ otherRun.after = reseeded run.after) := by
  intro starts run
  have supplied := machine.supplied_starts commands
  refine ⟨supplied.eq_skip, ?_, ?_⟩
  · intro before start later here
    -- the stream of a machine in the middle of a run is the one behind the steps before it
    have drawn : start.random = machine.random.skip (rolls before) := by
      rw [show machine.starts commands = _ from here] at supplied
      exact supplied.before_start.eq_skip
    refine ⟨drawn, fun x mask executed => ?_⟩
    rw [get_step_of_random executed, drawn]
    rfl
  · intro seed random reseeded otherRun
    have coupling := coupling_reseeded machine.settings seed random
    have eq_reseeded {first second : Machine}
        (equipped : Equipped machine.settings { machine.settings with seed } (fun _ => random)
          first second) : second = reseeded first := by
      obtain ⟨given, rfl⟩ := equipped
      rw [← given]
    have like : Equipped machine.settings { machine.settings with seed } (fun _ => random)
        machine (reseeded machine) := ⟨rfl, rfl⟩
    refine ⟨(coupling.starts commands like).imp eq_reseeded, fun quiet => ?_⟩
    obtain ⟨value, equipped⟩ := coupling.performAll commands like (rolls_eq_zero_iff.mp quiet)
    rw [List.map_id, List.map_id] at value
    exact ⟨value, eq_reseeded equipped⟩

/-- Two draws, the first of them masked out, a failure between them and a wait behind them, then
a reset and the same again: the last draw gets the lowest byte of the fourth word. -/
theorem random_words_accounted_across_reset :
    let machine := switchedOn { instructionsPerFrame := 4 } (.cycle [0x111, 0x222, 0x333, 0x444])
    let commands : List Command :=
      [.load [0xC1, 0x00, 0xFF, 0xFF, 0xC2, 0xFF, 0xF3, 0x0A], .runFrame, .reset, .runFrame]
    let run := machine.performAll commands
    rolls (machine.starts commands) = 4 ∧ run.after.core.get 2 = 0x44 ∧
      run.after.random = machine.random.skip 4 := by
  intro machine commands run
  obtain ⟨count, rolled⟩ : rolls (machine.starts commands) = 4 ∧ run.after.core.get 2 = 0x44 := by
    decide +kernel
  have behind := (random_words_accounted machine commands).1
  rw [count] at behind
  exact ⟨count, rolled, behind⟩

end Machine

end ChipEight
