import ChipEight.Proofs.Machine.History
import ChipEight.Proofs.Machine.Likeness
/-!
# The size of frames

How many instructions go into a frame decides between which of them the timers tick, and
nothing else. Up to the timers, frames do what as many plain steps do, as long as no
instruction looks at a timer; so the same instructions in larger or smaller frames lead
to the same machine.

## Main definitions

- `Core.untimed`, `Core.SameUntimed` — a core with both timers run out, and cores that
  only the timers tell apart
- `StepResult.readsDelay` — the steps that look at a timer
- `totalAttempts` — the attempts of several frames, summed up
- `Machine.SameButTimers` — machines that only the timers and the size of frames tell apart
- `Machine.atSpeed`, `Machine.framesAtSpeed` — a machine with frames of another size, and so
  many of these frames

## Main statements

- `Instruction.execute_alike` — one instruction alone looks at a timer
- `Machine.SameButTimers.steps` — machines that only the timers tell apart, step by step
- `Machine.frames_follow_steps` — frames against plain steps
- `Machine.frame_size_unobservable` — frames of one size against frames of another
-/

namespace ChipEight

/-- The core with both timers run out. -/
def Core.untimed (core : Core) : Core :=
  { core with delay := 0, sound := 0 }

/-- The timers alone tell the cores apart. -/
def Core.SameUntimed (first second : Core) : Prop :=
  second.untimed = first.untimed

/-- Whether a step executed the instruction that reads the delay timer. -/
def StepResult.readsDelay : StepResult → Bool
  | .executed (.getDelay _) => true
  | _ => false

/-- The number of attempts that responses tell of, taken together. -/
def totalAttempts : List Response → Nat
  | [] => 0
  | .attempted count :: rest => count + totalAttempts rest
  | _ :: rest => totalAttempts rest

/-- What can be seen of the cores with both timers run out. -/
theorem Core.SameUntimed.congr {α : Type} {first second : Core} (same : SameUntimed first second)
    (view : Core → α) : view second.untimed = view first.untimed :=
  congrArg view same

/-- The timers alone tell the cores apart behind a change to which the timers do not matter. -/
theorem Core.SameUntimed.map {first second : Core} (same : SameUntimed first second)
    (change : Core → Core) (blind : ∀ core, (change core).untimed = (change core.untimed).untimed) :
    SameUntimed (change first) (change second) := by
  rw [SameUntimed, blind second, blind first, show second.untimed = first.untimed from same]

theorem Core.likeness_sameUntimed : Core.Likeness Core.SameUntimed where
  control same := same.congr control
  fetch same := same.congr fetch
  latch word same := same.map (fun core => { core with opcode := word }) fun _ => rfl
  next same := same.map next fun _ => rfl

theorem Core.SameUntimed.eq {first second : Core} (same : SameUntimed first second) :
    second = { first with delay := second.delay, sound := second.sound } :=
  congrArg (fun core : Core => { core with delay := second.delay, sound := second.sound }) same

variable {dialect : Dialect} {byte : Byte} {instruction : Instruction}

/-- Cores that the delay timer tells apart, and then the sound timer, are told apart by the
timers alone. -/
theorem Core.SameUntimed.of_parts {first second third : Core}
    (delay : SameBut .delay first second) (sound : SameBut .sound second third) :
    SameUntimed first third :=
  calc third.untimed
      = (second.forget .sound).forget .delay := congrArg (forget .delay) sound
    _ = (first.forget .delay).forget .sound := congrArg (forget .sound) delay
    _ = first.untimed := rfl

/-- One instruction alone reads the delay timer. -/
theorem Instruction.reads_delay_eq_false (no_read : ∀ x, instruction ≠ .getDelay x) :
    instruction.reads .delay = false := by
  cases instruction with
  | getDelay x => exact absurd rfl (no_read x)
  | _ => rfl

/-- Two cores that only the timers tell apart are treated alike by every instruction but
one. -/
theorem Instruction.execute_alike (no_read : ∀ x, instruction ≠ .getDelay x)
    {first second : Core} (same : Core.SameUntimed first second) :
    Outcome.Alike Core.SameUntimed
      (instruction.execute dialect byte first) (instruction.execute dialect byte second) := by
  -- one timer after the other
  let middle : Core := { first with delay := second.delay }
  have delay : Core.SameBut .delay first middle := rfl
  have sound : Core.SameBut .sound middle second := by
    rw [same.eq]
    rfl
  exact (execute_alike_of_unread (reads_delay_eq_false no_read) delay).comp
    (execute_alike_of_unread (reads_eq_false rfl instruction) sound) .of_parts

namespace Machine

/-- The machine with frames of another size. -/
def atSpeed (machine : Machine) (speed : Nat) : Machine :=
  { machine with settings := { machine.settings with instructionsPerFrame := speed } }

/-- So many frames of one size, one after the other. -/
def framesAtSpeed (machine : Machine) (speed count : Nat) : Report Machine (List Response) :=
  (machine.atSpeed speed).performAll (List.replicate count .runFrame)

/-- Machines that are told apart only by their timers and by the size of their frames. -/
structure SameButTimers (first second : Machine) : Prop where
  core : Core.SameUntimed first.core second.core
  dialect : second.settings.dialect = first.settings.dialect
  random : second.random = first.random

variable {machine first second third : Machine}

namespace SameButTimers

theorem refl (machine : Machine) : SameButTimers machine machine :=
  ⟨rfl, rfl, rfl⟩

theorem symm (same : SameButTimers first second) : SameButTimers second first :=
  ⟨same.core.symm, same.dialect.symm, same.random.symm⟩

theorem trans (one : SameButTimers first second) (two : SameButTimers second third) :
    SameButTimers first third :=
  ⟨two.core.trans one.core, two.dialect.trans one.dialect, two.random.trans one.random⟩

theorem tick (machine : Machine) : SameButTimers machine machine.tick :=
  ⟨rfl, rfl, rfl⟩

theorem atSpeed (machine : Machine) (speed other : Nat) :
    SameButTimers (machine.atSpeed speed) (machine.atSpeed other) :=
  ⟨rfl, rfl, rfl⟩

/-- A step that does not look at a timer goes the same way. -/
theorem step (same : SameButTimers first second)
    (no_read : first.step.value.readsDelay = false) :
    second.step.value = first.step.value ∧
      SameButTimers first.step.after second.step.after := by
  have treats : TreatsAlike Core.SameUntimed first second := by
    intro word instruction running fetched decoded
    rw [same.dialect]
    refine Instruction.execute_alike ?_ (Core.likeness_sameUntimed.latch word same.core)
    -- the instruction that reads the timer would have run
    rintro x rfl
    have step_eq := Turn.step_eq (.executed running word _ _ fetched decoded rfl)
    rw [step_eq] at no_read
    cases no_read
  obtain ⟨value, core, random⟩ :=
    step_alike Core.likeness_sameUntimed same.core same.random treats
  refine ⟨value, core, ?_, random⟩
  rw [settings_step, settings_step, same.dialect]

/-- So do several steps. -/
theorem steps (same : SameButTimers first second) (n : Nat)
    (no_read : ∀ result ∈ stepResults n first, result.readsDelay = false) :
    stepResults n second = stepResults n first ∧
      SameButTimers (steps n first) (steps n second) := by
  induction n generalizing first second with
  | zero => exact ⟨rfl, same⟩
  | succ n ih =>
    obtain ⟨value, same'⟩ := same.step (no_read _ List.mem_cons_self)
    obtain ⟨results, last⟩ :=
      ih same' fun result member => no_read result (List.mem_cons_of_mem _ member)
    refine ⟨?_, last⟩
    rw [stepResults, stepResults, value, results]

end SameButTimers

theorem running_runFrame (running : machine.core.control = .running) :
    machine.runFrame.after.core.control = .running := by
  rw [after_runFrame running]
  exact (control_steps _ _).trans running

theorem settings_runFrame (running : machine.core.control = .running) :
    machine.runFrame.after.settings = machine.settings := by
  rw [after_runFrame running]
  exact settings_steps _ _

/-- A frame leaves what as many plain steps leave, up to the timers. -/
theorem sameButTimers_runFrame (running : machine.core.control = .running) :
    SameButTimers (steps machine.settings.instructionsPerFrame machine)
      machine.runFrame.after := by
  rw [after_runFrame running]
  exact .tick _

/-- As long as the plain steps do not look at a timer, frames leave what they leave, up to
the timers, and count the attempts among them. -/
theorem frames_follow_steps {size : Nat} (running : machine.core.control = .running)
    (hsize : machine.settings.instructionsPerFrame = size) (n : Nat)
    (no_read : ∀ result ∈ stepResults (n * size) machine, result.readsDelay = false) :
    let run := machine.performAll (List.replicate n .runFrame)
    SameButTimers (steps (n * size) machine) run.after ∧
      totalAttempts run.value
        = (stepResults (n * size) machine).countP StepResult.isAttempt := by
  intro run
  induction n generalizing machine with
  | zero =>
    rw [Nat.zero_mul]
    exact ⟨.refl machine, rfl⟩
  | succ n ih =>
    have split : (n + 1) * size = size + n * size := by rw [Nat.succ_mul, Nat.add_comm]
    have hvalue := value_runFrame running
    have same := sameButTimers_runFrame running
    rw [hsize] at hvalue same
    rw [split, stepResults_add] at no_read
    -- behind the frame the steps go the same way with the timers one tick further
    obtain ⟨results, last⟩ := same.steps (n * size) fun result member =>
      no_read result (List.mem_append_right _ member)
    rw [← results] at no_read
    obtain ⟨others, attempts⟩ := ih (running_runFrame running)
      ((settings_runFrame running).symm ▸ hsize)
      fun result member => no_read result (List.mem_append_right _ member)
    rw [split, steps_add, stepResults_add, List.countP_append, ← hvalue, ← results, ← attempts]
    exact ⟨last.trans others, rfl⟩

/-- If the steps of the frames do not look at a timer, neither do as many plain steps. -/
theorem no_read_of_starts {size : Nat} (running : machine.core.control = .running)
    (hsize : machine.settings.instructionsPerFrame = size) (n : Nat)
    (no_read : ∀ start ∈ machine.starts (List.replicate n .runFrame),
      start.step.value.readsDelay = false) :
    ∀ result ∈ stepResults (n * size) machine, result.readsDelay = false := by
  induction n generalizing machine with
  | zero =>
    rw [Nat.zero_mul]
    exact fun result member => nomatch member
  | succ n ih =>
    have split : (n + 1) * size = size + n * size := by rw [Nat.succ_mul, Nat.add_comm]
    have hsize' : machine.runFrame.after.settings.instructionsPerFrame = size := by
      rw [settings_runFrame running, hsize]
    have later := ih (running_runFrame running) hsize' fun start member =>
      no_read start (List.mem_append_right _ member)
    have same := sameButTimers_runFrame running
    rw [hsize] at same
    intro result member
    rw [split, stepResults_add] at member
    rcases List.mem_append.mp member with inside | behind
    · rw [← hsize] at inside
      obtain ⟨start, started, rfl⟩ := exists_start_of_mem_stepResults inside
      exact no_read start (List.mem_append_left _ started)
    · -- the frame has ticked, and the plain steps behind it go the same way
      rw [(same.symm.steps _ later).1] at behind
      exact later result behind

/-- The size of frames cannot be observed, apart from the timers. If a running machine
executes no instruction that looks at a timer in some frames of one size, then as many
instructions in frames of any other size leave the same core up to the timers, the same
random words, and the same number of attempts. -/
theorem frame_size_unobservable {speed other n m : Nat}
    (running : machine.core.control = .running) (same_steps : n * speed = m * other)
    (no_read : ∀ start ∈ (machine.atSpeed speed).starts (List.replicate n .runFrame),
      start.step.value.readsDelay = false) :
    let first := machine.framesAtSpeed speed n
    let second := machine.framesAtSpeed other m
    second.after.core
        = { first.after.core with
            delay := second.after.core.delay, sound := second.after.core.sound } ∧
      second.after.random = first.after.random ∧
      totalAttempts second.value = totalAttempts first.value := by
  intro first second
  have running' (speed : Nat) : (machine.atSpeed speed).core.control = .running := running
  have size (speed : Nat) : (machine.atSpeed speed).settings.instructionsPerFrame = speed := rfl
  have plain := no_read_of_starts (running' speed) (size speed) n no_read
  obtain ⟨one, attempts⟩ := frames_follow_steps (running' speed) (size speed) n plain
  -- the plain steps of the machine with the other frames are the same steps
  obtain ⟨results, middle⟩ := (SameButTimers.atSpeed machine speed other).steps _ plain
  rw [← results, same_steps] at plain
  obtain ⟨two, attempts'⟩ := frames_follow_steps (running' other) (size other) m plain
  rw [same_steps] at one middle results attempts
  have same : SameButTimers first.after second.after := (one.symm.trans middle).trans two
  refine ⟨same.core.eq, same.random, ?_⟩
  exact attempts'.trans (results ▸ attempts.symm)

/-- A program that sets the delay timer, draws a random byte, fails in the middle of a frame
and then waits for a key: the timer is what tells two frames of four from four frames of
two. -/
theorem frame_size_unobservable_across_wait :
    let machine : Machine :=
      { core := { Core.fresh with
          pc := 0
          memory := overwrite Memory.fresh 0
            [0x60, 0x05, 0xF0, 0x15, 0xC1, 0xFF, 0xFF, 0xFF, 0xF0, 0x18, 0xF2, 0x0A] }
        settings := {}
        random := .cycle [0x2A] }
    machine.core.control = .running ∧ 2 * 4 = 4 * 2 ∧
      (∀ start ∈ (machine.atSpeed 4).starts (List.replicate 2 .runFrame),
        start.step.value.readsDelay = false) ∧
      (machine.framesAtSpeed 4 2).after.core.delay = 3 ∧
      (machine.framesAtSpeed 2 4).after.core.delay = 1 ∧
      (machine.framesAtSpeed 2 4).after.core
        = { (machine.framesAtSpeed 4 2).after.core with
            delay := (machine.framesAtSpeed 2 4).after.core.delay
            sound := (machine.framesAtSpeed 2 4).after.core.sound } ∧
      (machine.framesAtSpeed 2 4).after.random = (machine.framesAtSpeed 4 2).after.random ∧
      totalAttempts (machine.framesAtSpeed 2 4).value
        = totalAttempts (machine.framesAtSpeed 4 2).value := by
  intro machine
  have running : machine.core.control = .running := rfl
  have no_read : ∀ start ∈ (machine.atSpeed 4).starts (List.replicate 2 .runFrame),
      start.step.value.readsDelay = false := by decide +kernel
  have delay_first : (machine.framesAtSpeed 4 2).after.core.delay = 3 := by decide +kernel
  have delay_second : (machine.framesAtSpeed 2 4).after.core.delay = 1 := by decide +kernel
  exact ⟨running, rfl, no_read, delay_first, delay_second,
    frame_size_unobservable running rfl no_read⟩

end Machine

end ChipEight
