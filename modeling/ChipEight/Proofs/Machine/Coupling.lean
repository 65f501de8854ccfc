import ChipEight.Proofs.Machine.History
import ChipEight.Proofs.Machine.Run
/-!
# Two runs side by side

Two machines that the same is done to. What keeps them related step by step, and under each
act of the host, keeps them related over a run, and they answer alike all the way.

## Main definitions

- `Machine.Coupling` — a relation that is kept by whatever is done to both machines
- `Machine.Abreast` — two lists of machines whose steps come to the same, up to a machine from
  which no step is safe

## Main statements

- `Machine.Coupling.attempt`, `Machine.Coupling.perform` — a batch and a command
- `Machine.Coupling.performAll` — a run
- `Machine.Coupling.starts` — the single steps of a run, also of one that becomes unsafe

## Design notes

The counterpart for one machine is `Machine.Invariant`. The steps that the relation does not
survive are left out by `Safe`, which speaks of the first machine alone: as long as all its
steps start from safe machines, the second machine need not be looked at.
-/

namespace ChipEight.Machine

/-- A relation between machines that every act of the host keeps, and a step as well if it
starts from a `Safe` machine. Of what the machines answer, related ones agree in `view`,
which matters for the pictures that they hand out; all else they answer is the same. -/
structure Coupling (R : Machine → Machine → Prop) (Safe : Machine → Prop)
    (view : Response → Response) : Prop where
  control : ∀ {first second}, R first second → second.core.control = first.core.control
  memory : ∀ {first second}, R first second → second.core.memory = first.core.memory
  speed : ∀ {first second}, R first second →
    second.settings.instructionsPerFrame = first.settings.instructionsPerFrame
  step : ∀ {first second}, R first second → Safe first →
    second.step.value = first.step.value ∧ R first.step.after second.step.after
  tick : ∀ {first second}, R first second → R first.tick second.tick
  load : ∀ {first second} memory, R first second →
    R { first with core := { first.core with memory } }
      { second with core := { second.core with memory } }
  setKeys : ∀ {first second} (change : Keypad → Keypad), R first second →
    R (first.setKeys (change first.core.keypad)) (second.setKeys (change second.core.keypad))
  setControl : ∀ {first second} control, R first second →
    R { first with core := { first.core with control } }
      { second with core := { second.core with control } }
  reset : ∀ {first second}, R first second → R first.reset.after second.reset.after
  lowerRedraw : ∀ {first second}, R first second →
    R { first with core := { first.core with redraw := false } }
      { second with core := { second.core with redraw := false } }
  frame : ∀ {first second}, R first second →
    view (.frame second.takeFrame.value) = view (.frame first.takeFrame.value)

/-- The machines of two lists are related one by one, and the steps from them come to the same,
up to and including the first machine from which a step is not safe. -/
inductive Abreast (R : Machine → Machine → Prop) (Safe : Machine → Prop) :
    List Machine → List Machine → Prop where
  | nil : Abreast R Safe [] []
  | parted {first second : Machine} {others others' : List Machine} (like : R first second)
      (parts : ¬ Safe first) : Abreast R Safe (first :: others) (second :: others')
  | cons {first second : Machine} {others others' : List Machine} (like : R first second)
      (value : second.step.value = first.step.value) (rest : Abreast R Safe others others') :
      Abreast R Safe (first :: others) (second :: others')

namespace Abreast

variable {R S : Machine → Machine → Prop} {Safe : Machine → Prop}
  {one two later later' : List Machine}

theorem append (abreast : Abreast R Safe one two)
    (rest : (∀ start ∈ one, Safe start) → Abreast R Safe later later') :
    Abreast R Safe (one ++ later) (two ++ later') := by
  induction abreast with
  | nil => exact rest fun _ member => absurd member List.not_mem_nil
  -- what comes behind the parting does not matter
  | parted like parts => exact .parted like parts
  | @cons first second others others' like value _ ih =>
    by_cases safe : Safe first
    · refine .cons like value (ih fun all => rest ?_)
      exact List.forall_mem_cons.mpr ⟨safe, all⟩
    · exact .parted like safe

theorem imp (abreast : Abreast R Safe one two)
    (weaken : ∀ {first second}, R first second → S first second) : Abreast S Safe one two := by
  induction abreast with
  | nil => exact .nil
  | parted like parts => exact .parted (weaken like) parts
  | cons like value _ ih => exact .cons (weaken like) value ih

end Abreast

namespace Coupling

variable {R : Machine → Machine → Prop} {Safe : Machine → Prop} {view : Response → Response}
  {first second : Machine}

theorem attempt (coupling : Coupling R Safe view) (count attempted : Nat)
    (events others : Array Event) (like : R first second)
    (safe : ∀ start ∈ batchStarts count first, Safe start) :
    (Machine.attempt count second attempted others).value
        = (Machine.attempt count first attempted events).value ∧
      R (Machine.attempt count first attempted events).after
        (Machine.attempt count second attempted others).after := by
  induction count generalizing first second attempted events others with
  | zero => exact ⟨rfl, like⟩
  | succ count ih =>
    obtain ⟨value, like'⟩ := coupling.step like (safe first List.mem_cons_self)
    have later (goes_on : first.step.value.isAttempt = true) :
        ∀ start ∈ batchStarts count first.step.after, Safe start := by
      intro start member
      refine safe start (List.mem_cons_of_mem _ ?_)
      rw [if_pos goes_on]
      exact member
    simp only [Machine.attempt, value]
    cases hvalue : first.step.value with
    | executed instruction => exact ih _ _ _ like' (later (by rw [hvalue]; rfl))
    | failed fault => exact ih _ _ _ like' (later (by rw [hvalue]; rfl))
    -- both batches end here
    | awaitingKey => exact ⟨rfl, like'⟩
    | stopped => exact ⟨rfl, like'⟩

theorem batchStarts (coupling : Coupling R Safe view) (count : Nat) (like : R first second) :
    Abreast R Safe (Machine.batchStarts count first) (Machine.batchStarts count second) := by
  induction count generalizing first second with
  | zero => exact .nil
  | succ count ih =>
    by_cases safe : Safe first
    · obtain ⟨value, like'⟩ := coupling.step like safe
      refine .cons like value ?_
      rw [value]
      split
      · exact ih like'
      · exact .nil
    · exact .parted like safe

theorem runFrame (coupling : Coupling R Safe view) (like : R first second)
    (safe : ∀ start ∈ first.startsOf .runFrame, Safe start) :
    second.runFrame.value = first.runFrame.value ∧
      R first.runFrame.after second.runFrame.after := by
  obtain ⟨value, like'⟩ := coupling.attempt _ 0 #[] #[] like safe
  simp only [Machine.runFrame, coupling.speed like, coupling.control like']
  split
  · exact ⟨value, coupling.tick like'⟩
  · exact ⟨value, like'⟩

theorem load_perform (coupling : Coupling R Safe view) (program : List Byte)
    (like : R first second) :
    (second.perform (.load program)).value = (first.perform (.load program)).value ∧
      R (first.perform (.load program)).after (second.perform (.load program)).after := by
  simp only [Machine.perform, Machine.load, Core.load, coupling.memory like]
  cases first.core.memory.load program with
  | error error => exact ⟨rfl, like⟩
  | ok memory => exact ⟨rfl, coupling.load memory like⟩

theorem loadFrom_perform (coupling : Coupling R Safe view) (source : List Read)
    (like : R first second) :
    (second.perform (.loadFrom source)).value = (first.perform (.loadFrom source)).value ∧
      R (first.perform (.loadFrom source)).after (second.perform (.loadFrom source)).after := by
  simp only [Machine.perform, Machine.loadFrom]
  cases Source.contents source with
  | error error => exact ⟨rfl, like⟩
  | ok program => exact coupling.load_perform program like

theorem apply_perform (coupling : Coupling R Safe view) (intent : Intent)
    (like : R first second) :
    R (first.perform (.apply intent)).after (second.perform (.apply intent)).after := by
  by_cases resets : intent = .reset
  · rw [resets]
    exact coupling.reset like
  · rw [after_perform_apply resets, after_perform_apply resets, coupling.control like]
    exact coupling.setControl _ like

theorem perform (coupling : Coupling R Safe view) (command : Command) (like : R first second)
    (safe : ∀ start ∈ first.startsOf command, Safe start) :
    view (second.perform command).value = view (first.perform command).value ∧
      R (first.perform command).after (second.perform command).after := by
  cases command with
  | load program =>
    obtain ⟨value, like'⟩ := coupling.load_perform program like
    exact ⟨congrArg view value, like'⟩
  | loadFrom source =>
    obtain ⟨value, like'⟩ := coupling.loadFrom_perform source like
    exact ⟨congrArg view value, like'⟩
  | step =>
    obtain ⟨value, like'⟩ := coupling.step like (safe first List.mem_cons_self)
    exact ⟨congrArg (fun result => view (.stepped result)) value, like'⟩
  | runFrame =>
    obtain ⟨value, like'⟩ := coupling.runFrame like safe
    exact ⟨congrArg (fun count => view (.attempted count)) value, like'⟩
  | tick => exact ⟨rfl, coupling.tick like⟩
  | press key => exact ⟨rfl, coupling.setKeys (fun keypad => keypad.press key) like⟩
  | release key => exact ⟨rfl, coupling.setKeys (fun keypad => keypad.release key) like⟩
  | setKeys keypad => exact ⟨rfl, coupling.setKeys (fun _ => keypad) like⟩
  | apply intent => exact ⟨rfl, coupling.apply_perform intent like⟩
  | reset => exact ⟨rfl, coupling.reset like⟩
  | takeFrame =>
    rw [after_perform_takeFrame, after_perform_takeFrame]
    exact ⟨coupling.frame like, coupling.lowerRedraw like⟩

/-- Machines that are related stay so over a run, and answer alike. -/
theorem performAll (coupling : Coupling R Safe view) (commands : List Command)
    (like : R first second) (safe : ∀ start ∈ first.starts commands, Safe start) :
    (second.performAll commands).value.map view = (first.performAll commands).value.map view ∧
      R (first.performAll commands).after (second.performAll commands).after := by
  induction commands generalizing first second with
  | nil => exact ⟨rfl, like⟩
  | cons command rest ih =>
    obtain ⟨value, like'⟩ := coupling.perform command like fun start member =>
      safe start (List.mem_append_left _ member)
    obtain ⟨values, last⟩ := ih like' fun start member =>
      safe start (List.mem_append_right _ member)
    refine ⟨?_, last⟩
    rw [Machine.performAll, Machine.performAll, List.map_cons, List.map_cons, value, values]

theorem startsOf (coupling : Coupling R Safe view) (command : Command) (like : R first second) :
    Abreast R Safe (first.startsOf command) (second.startsOf command) := by
  cases command with
  | step => simpa [Machine.startsOf, Machine.batchStarts] using coupling.batchStarts 1 like
  | runFrame =>
    simp only [Machine.startsOf, coupling.speed like]
    exact coupling.batchStarts _ like
  | _ => exact .nil

/-- Machines that are related take the same steps, as long as these are safe. -/
theorem starts (coupling : Coupling R Safe view) (commands : List Command)
    (like : R first second) : Abreast R Safe (first.starts commands) (second.starts commands) := by
  induction commands generalizing first second with
  | nil => exact .nil
  | cons command rest ih =>
    refine (coupling.startsOf command like).append fun safe => ?_
    exact ih (coupling.perform command like safe).2

end Coupling

end ChipEight.Machine
