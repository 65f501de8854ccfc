import ChipEight.Proofs.Instruction.WriteSet
import ChipEight.Proofs.Machine.Host
/-!
# Timers over runs

A timer is set by its own instruction and counted down by ticks, and nothing else touches it.
So the last value that a run stores in it and the ticks behind that tell what it holds.

## Main definitions

- `Timer`, `Core.timer`, `Timer.setter` — the two timers, and the instructions that set them
- `Machine.ticks` — how often a run ticks
- `Moment`, `Machine.moments` — the steps and ticks of a run, in their order

## Main statements

- `Machine.timer_step` — the timers behind a step
- `Machine.timer_performAll` — the timers behind a run, moment by moment
- `Timer.countdown` — moments that store nothing
- `Machine.timers_run_down` — the timers behind every run
-/

namespace ChipEight

inductive Timer where
  | delay
  | sound
  deriving DecidableEq, Repr

def Core.timer (core : Core) : Timer → Byte
  | .delay => core.delay
  | .sound => core.sound

/-- The instruction that sets the timer from a register. -/
def Timer.setter : Timer → Register → Instruction
  | .delay, x => .setDelay x
  | .sound, x => .setSound x

/-- What a machine goes through: a step from the machine `start`, or a tick. -/
inductive Moment where
  | step (start : Machine)
  | tick

namespace Moment

def isTick : Moment → Bool
  | .step _ => false
  | .tick => true

/-- The machine from which a step starts. -/
def start? : Moment → Option Machine
  | .step start => some start
  | .tick => none

end Moment

namespace Machine

/-- How often a command ticks: a frame does so if the machine runs. -/
def ticksOf (machine : Machine) : Command → Nat
  | .tick => 1
  | .runFrame => if machine.core.control = .running then 1 else 0
  | _ => 0

def ticks : Machine → List Command → Nat
  | _, [] => 0
  | machine, command :: rest =>
    machine.ticksOf command + (machine.perform command).after.ticks rest

/-- The steps of a command and the ticks behind them. -/
def momentsOf (machine : Machine) (command : Command) : List Moment :=
  (machine.startsOf command).map .step ++ List.replicate (machine.ticksOf command) .tick

/-- The steps and ticks of a run, in their order. -/
def moments : Machine → List Command → List Moment
  | _, [] => []
  | machine, command :: rest =>
    machine.momentsOf command ++ (machine.perform command).after.moments rest

theorem countP_moments (machine : Machine) (commands : List Command) :
    (machine.moments commands).countP Moment.isTick = machine.ticks commands := by
  induction commands generalizing machine with
  | nil => rfl
  | cons command rest ih =>
    have steps : ((machine.startsOf command).map Moment.step).countP Moment.isTick = 0 := by
      simp [List.countP_eq_zero, Moment.isTick]
    have ticks : (List.replicate (machine.ticksOf command) Moment.tick).countP Moment.isTick
        = machine.ticksOf command := by
      simp [List.countP_replicate, Moment.isTick]
    rw [moments, momentsOf, List.countP_append, List.countP_append, steps, ticks, ih, Machine.ticks,
      Nat.zero_add]

theorem filterMap_moments (machine : Machine) (commands : List Command) :
    (machine.moments commands).filterMap Moment.start? = machine.starts commands := by
  induction commands generalizing machine with
  | nil => rfl
  | cons command rest ih =>
    have steps : ((machine.startsOf command).map Moment.step).filterMap Moment.start?
        = machine.startsOf command := by
      rw [List.filterMap_map]
      exact List.filterMap_some
    have ticks : (List.replicate (machine.ticksOf command) Moment.tick).filterMap Moment.start?
        = [] := by
      simp [List.filterMap_replicate, Moment.start?]
    rw [moments, momentsOf, List.filterMap_append, List.filterMap_append, steps, ticks, ih, starts,
      List.append_nil]

theorem mem_starts_of_mem_moments {machine start : Machine} {commands : List Command}
    (member : Moment.step start ∈ machine.moments commands) : start ∈ machine.starts commands := by
  rw [← filterMap_moments]
  exact List.mem_filterMap.mpr ⟨_, member, rfl⟩

variable {machine : Machine} {timer : Timer} {x : Register}

/-- What a step from the machine stores in a timer. -/
def stored? (machine : Machine) (timer : Timer) : Option Byte :=
  match machine.step.value, timer with
  | .executed (.setDelay x), .delay => some (machine.core.get x)
  | .executed (.setSound x), .sound => some (machine.core.get x)
  | _, _ => none

theorem stored?_eq_some (executed : machine.step.value = .executed (timer.setter x)) :
    machine.stored? timer = some (machine.core.get x) := by
  cases timer <;> simp [stored?, executed, Timer.setter]

theorem stored?_eq_none (unset : ∀ x, machine.step.value ≠ .executed (timer.setter x)) :
    machine.stored? timer = none := by
  unfold stored?
  split
  · next x value => exact absurd value (unset x)
  · next x value => exact absurd value (unset x)
  · rfl

/-- A step that does not execute the instruction of a timer leaves the timer alone. -/
theorem timer_step_of_unset (unset : ∀ x, machine.step.value ≠ .executed (timer.setter x)) :
    machine.step.after.core.timer timer = machine.core.timer timer := by
  have turn := machine.turn_step
  generalize machine.step = report at turn unset ⊢
  cases turn with
  | executed running word instruction core fetched decoded ran =>
    have other : ∀ x, instruction ≠ timer.setter x := by
      rintro x rfl
      exact unset x rfl
    cases timer with
    | delay => exact (effect_of_execute ran).delay_eq other
    | sound => exact (effect_of_execute ran).sound_eq other
  | _ => rfl

theorem timer_step_of_set (executed : machine.step.value = .executed (timer.setter x)) :
    machine.step.after.core.timer timer = machine.core.get x := by
  obtain ⟨word, _, _, effect⟩ := effect_of_executed executed
  generalize machine.step.after.core = after at effect ⊢
  cases timer with
  | delay =>
    cases effect with
    | registers isLocal => cases isLocal
    | setDelay x => rfl
  | sound =>
    cases effect with
    | registers isLocal => cases isLocal
    | setSound x => rfl

theorem timer_step (machine : Machine) (timer : Timer) :
    machine.step.after.core.timer timer
      = (machine.stored? timer).getD (machine.core.timer timer) := by
  by_cases set : ∃ x, machine.step.value = .executed (timer.setter x)
  · obtain ⟨x, executed⟩ := set
    rw [timer_step_of_set executed, stored?_eq_some executed, Option.getD_some]
  · rw [not_exists] at set
    rw [timer_step_of_unset set, stored?_eq_none set, Option.getD_none]

end Machine

/-- A timer after a tick. -/
def Timer.countDown (value : Byte) : Byte :=
  if value = 0 then 0 else value - 1

/-- What a moment makes of a timer. -/
def Moment.after (timer : Timer) (value : Byte) : Moment → Byte
  | .step start => (start.stored? timer).getD value
  | .tick => Timer.countDown value

namespace Timer

theorem toNat_countDown (value : Byte) : (countDown value).toNat = value.toNat - 1 := by
  by_cases run_down : value = 0
  · rw [run_down]
    rfl
  · have one_le : (1 : Byte) ≤ value := by
      rw [UInt8.le_iff_toNat_le]
      have positive : value.toNat ≠ 0 := fun zero => run_down (UInt8.toNat_inj.mp zero)
      have one : (1 : Byte).toNat = 1 := rfl
      omega
    rw [countDown, if_neg run_down, UInt8.toNat_sub_of_le _ _ one_le]
    rfl

theorem timer_tick (core : Core) (timer : Timer) :
    core.tick.timer timer = countDown (core.timer timer) := by
  cases timer <;> rfl

/-- As long as nothing is stored in a timer, the ticks count it down to zero. -/
theorem countdown {timer : Timer} {moments : List Moment}
    (silent : ∀ start, Moment.step start ∈ moments → start.stored? timer = none) (value : Byte) :
    (moments.foldl (Moment.after timer) value).toNat
      = value.toNat - moments.countP Moment.isTick := by
  induction moments generalizing value with
  | nil => rfl
  | cons moment rest ih =>
    have later : ∀ start, Moment.step start ∈ rest → start.stored? timer = none :=
      fun start member => silent start (List.mem_cons_of_mem _ member)
    rw [List.foldl_cons, ih later, List.countP_cons]
    cases moment with
    | step start =>
      rw [Moment.after, silent start List.mem_cons_self]
      rfl
    | tick =>
      rw [Moment.after, toNat_countDown, Moment.isTick, if_pos rfl]
      omega

end Timer

namespace Machine

variable {machine last : Machine} {others : List Machine} {timer : Timer}

theorem StepRun.timer_eq (run : StepRun machine others last) :
    last.core.timer timer
      = (others.map .step).foldl (Moment.after timer) (machine.core.timer timer) := by
  induction run with
  | nil machine => rfl
  | @cons machine _ others rest ih =>
    rw [List.map_cons, List.foldl_cons, Moment.after, ← timer_step]
    exact ih

theorem StepRun.control_eq (run : StepRun machine others last) :
    last.core.control = machine.core.control := by
  induction run with
  | nil machine => rfl
  | @cons machine _ _ rest ih => exact ih.trans (control_step machine)

/-- Apart from its steps the host changes a timer by ticks alone. -/
theorem timer_perform_of_host {command : Command} (no_step : command.takesSteps = false)
    (no_tick : command ≠ .tick) (machine : Machine) (timer : Timer) :
    (machine.perform command).after.core.timer timer = machine.core.timer timer := by
  have act := machine.hostAct_perform no_step
  generalize (machine.perform command).after = after at act ⊢
  cases act with
  | tick => exact absurd rfl no_tick
  | _ => cases timer <;> rfl

theorem momentsOf_of_host {command : Command} (no_step : command.takesSteps = false)
    (no_tick : command ≠ .tick) (machine : Machine) : machine.momentsOf command = [] := by
  have still : machine.ticksOf command = 0 := by
    cases command with
    | runFrame => cases no_step
    | tick => exact absurd rfl no_tick
    | _ => rfl
  rw [momentsOf, startsOf_of_not_takesSteps no_step, still]
  rfl

theorem timer_runFrame (machine : Machine) (timer : Timer) :
    machine.runFrame.after.core.timer timer
      = (machine.momentsOf .runFrame).foldl (Moment.after timer) (machine.core.timer timer) := by
  have run := stepRun_attempt machine.settings.instructionsPerFrame machine 0 #[]
  -- no step of the batch changes whether the machine runs, so the tick can be foreseen
  rw [momentsOf, List.foldl_append, startsOf, ← run.timer_eq, ticksOf, runFrame, run.control_eq]
  split
  · exact Timer.timer_tick _ timer
  · rfl

/-- A command makes of a timer what its moments do. -/
theorem timer_perform (machine : Machine) (command : Command) (timer : Timer) :
    (machine.perform command).after.core.timer timer
      = (machine.momentsOf command).foldl (Moment.after timer) (machine.core.timer timer) := by
  by_cases ticks : command = .tick
  · rw [ticks]
    exact Timer.timer_tick machine.core timer
  cases steps : command.takesSteps with
  | false =>
    rw [momentsOf_of_host steps ticks, timer_perform_of_host steps ticks]
    rfl
  | true =>
    cases command with
    | step => exact machine.timer_step timer
    | runFrame => exact machine.timer_runFrame timer
    | _ => cases steps

/-- So does a run. -/
theorem timer_performAll (machine : Machine) (commands : List Command) (timer : Timer) :
    (machine.performAll commands).after.core.timer timer
      = (machine.moments commands).foldl (Moment.after timer) (machine.core.timer timer) := by
  induction commands generalizing machine with
  | nil => rfl
  | cons command rest ih =>
    rw [moments, List.foldl_append, ← timer_perform, ← ih]
    rfl

/-- What a timer holds behind any run. If the run executes no instruction that sets the timer,
the ticks have counted it down from what it held before; otherwise they have counted it down
from the last value stored, and the ticks behind that value count. A run ticks where the host
asks for it and in the frames that it runs while the machine is running. No other instruction,
failure or wait changes the timer, and nothing else that the host does. -/
theorem timers_run_down (machine : Machine) (timer : Timer) :
    (∀ commands : List Command,
      let final := (machine.performAll commands).after.core.timer timer
      ((∀ start ∈ machine.starts commands, ∀ x, start.step.value ≠ .executed (timer.setter x)) →
        final.toNat = (machine.core.timer timer).toNat - machine.ticks commands) ∧
      (∀ before start later x, machine.moments commands = before ++ .step start :: later →
        start.step.value = .executed (timer.setter x) →
        (∀ other, .step other ∈ later → ∀ y, other.step.value ≠ .executed (timer.setter y)) →
        final.toNat = (start.core.get x).toNat - later.countP Moment.isTick) ∧
      (machine.moments commands).filterMap Moment.start? = machine.starts commands ∧
      (machine.moments commands).countP Moment.isTick = machine.ticks commands) ∧
    ((∀ x, machine.step.value ≠ .executed (timer.setter x)) →
      machine.step.after.core.timer timer = machine.core.timer timer) ∧
    ∀ command : Command, command.takesSteps = false → command ≠ .tick →
      (machine.perform command).after.core.timer timer = machine.core.timer timer := by
  refine ⟨fun commands => ?_, timer_step_of_unset, fun command no_step no_tick =>
    timer_perform_of_host no_step no_tick machine timer⟩
  intro final
  have moment_by_moment := machine.timer_performAll commands timer
  refine ⟨?_, ?_, machine.filterMap_moments commands, machine.countP_moments commands⟩
  · intro unset
    have silent : ∀ start, Moment.step start ∈ machine.moments commands →
        start.stored? timer = none :=
      fun start member => stored?_eq_none (unset start (mem_starts_of_mem_moments member))
    rw [← countP_moments, ← Timer.countdown silent, ← moment_by_moment]
  · intro before start later x cut executed unset
    have silent : ∀ other, Moment.step other ∈ later → other.stored? timer = none :=
      fun other member => stored?_eq_none (unset other member)
    rw [cut, List.foldl_append, List.foldl_cons, Moment.after, stored?_eq_some executed,
      Option.getD_some] at moment_by_moment
    rw [← Timer.countdown silent, ← moment_by_moment]

/-- A timer set by a step and left to three ticks: one asked for, one of a frame in which an
instruction fails, none of the frame of a paused machine, and one behind a reset. -/
theorem timers_run_down_across_reset :
    let machine := switchedOn { instructionsPerFrame := 2 } (.cycle [0])
    let later : List Command :=
      [.tick, .runFrame, .apply .pause, .runFrame, .reset, .tick]
    let commands : List Command :=
      .load [0x6A, 0x09, 0xFA, 0x15, 0xFF, 0xFF, 0x12, 0x06] :: .step :: .step :: later
    let start := (machine.performAll (commands.take 2)).after
    start.step.value = .executed (.setDelay 0xA) ∧ start.core.get 0xA = 9 ∧
      start.step.after.ticks later = 3 ∧
      (machine.performAll commands).after.core.delay.toNat = 9 - 3 := by
  intro machine later commands start
  obtain ⟨executed, stored, ticks, unset⟩ :
      start.step.value = .executed (.setDelay 0xA) ∧ start.core.get 0xA = 9 ∧
        start.step.after.ticks later = 3 ∧
        ∀ other ∈ start.step.after.starts later,
          ∀ x, other.step.value ≠ .executed (.setDelay x) := by decide +kernel
  have law := ((timers_run_down machine .delay).1 commands).2.1
    [.step (machine.performAll (commands.take 1)).after] start (start.step.after.moments later)
    0xA rfl executed fun other member => unset other (mem_starts_of_mem_moments member)
  rw [stored, countP_moments, ticks] at law
  exact ⟨executed, stored, ticks, law⟩

end Machine

end ChipEight
