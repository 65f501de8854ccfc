import ChipEight.Proofs.Instruction.ReadSet
import ChipEight.Proofs.Machine.Turn
/-!
# Machines alike

Two machines side by side. Where their cores agree in all that a step looks at, and the
instruction at hand treats both cores alike, the steps of the two machines go the same way.

## Main definitions

- `Core.Likeness` — a relation between cores that decides which way a step goes
- `Outcome.Alike` — outcomes of one kind with related cores

## Main statements

- `Instruction.execute_alike_of_unread` — cores that a part tells apart which an instruction
  does not read
- `Machine.step_alike` — one step of two machines
-/

namespace ChipEight

/-- A relation between cores that tells whether the machine runs and what it fetches, and
that is kept where a word is remembered or skipped. -/
structure Core.Likeness (Like : Core → Core → Prop) : Prop where
  control : ∀ {first second}, Like first second → second.control = first.control
  fetch : ∀ {first second}, Like first second → second.fetch = first.fetch
  latch : ∀ {first second} (word : Word), Like first second →
    Like { first with opcode := word } { second with opcode := word }
  next : ∀ {first second}, Like first second → Like first.next second.next

/-- What two executions of an instruction came to is of one kind, up to related cores. -/
inductive Outcome.Alike (Like : Core → Core → Prop) :
    Except Fault Outcome → Except Fault Outcome → Prop where
  | failed (fault : Fault) : Alike Like (.error fault) (.error fault)
  | waiting : Alike Like (.ok .awaitingKey) (.ok .awaitingKey)
  | ran {first second : Core} (like : Like first second) :
      Alike Like (.ok (.next first)) (.ok (.next second))

namespace Outcome.Alike

variable {Like : Core → Core → Prop} {first : Core} {fault : Fault}
  {outcome : Except Fault Outcome}

theorem eq_error (alike : Alike Like (.error fault) outcome) : outcome = .error fault := by
  cases alike with
  | failed fault => rfl

theorem eq_awaitingKey (alike : Alike Like (.ok .awaitingKey) outcome) :
    outcome = .ok .awaitingKey := by
  cases alike with
  | waiting => rfl

theorem exists_next (alike : Alike Like (.ok (.next first)) outcome) :
    ∃ second, outcome = .ok (.next second) ∧ Like first second := by
  cases alike with
  | ran like => exact ⟨_, rfl, like⟩

theorem refl (like : ∀ core, Like core core) (outcome : Except Fault Outcome) :
    Alike Like outcome outcome := by
  rcases outcome with fault | core | _
  · exact .failed fault
  · exact .ran (like core)
  · exact .waiting

/-- Outcomes alike in one way and then in another are alike in both ways together. -/
theorem comp {Other Both : Core → Core → Prop} {one two three : Except Fault Outcome}
    (alike : Alike Like one two) (alike' : Alike Other two three)
    (both : ∀ {first second third}, Like first second → Other second third → Both first third) :
    Alike Both one three := by
  cases alike with
  | failed fault => rw [alike'.eq_error]; exact .failed fault
  | waiting => rw [alike'.eq_awaitingKey]; exact .waiting
  | ran like =>
    obtain ⟨third, rfl, like'⟩ := alike'.exists_next
    exact .ran (both like like')

/-- Outcomes that are the same with a part forgotten are alike. -/
theorem of_map_forget_eq {part : Core.Part} {one two : Except Fault Outcome}
    (same : two.map (Outcome.forget part) = one.map (Outcome.forget part)) :
    Alike (Core.SameBut part) one two := by
  rcases one with fault | outcome
  · rw [Except.map_eq_error_iff.mp same]
    exact .failed fault
  · obtain ⟨outcome', rfl, same'⟩ := Except.map_eq_ok_iff.mp same
    cases outcome with
    | next first =>
      cases outcome' with
      | next second => exact .ran (Outcome.next.inj same')
      | awaitingKey => cases same'
    | awaitingKey =>
      cases outcome' with
      | next second => cases same'
      | awaitingKey => exact .waiting

end Outcome.Alike

theorem Core.likeness_sameBut (part : Core.Part) : Core.Likeness (Core.SameBut part) where
  control same := same.control_eq
  fetch same := same.fetch_eq
  latch word same := same.map (fun core => { core with opcode := word }) fun core => by
    cases part <;> rfl
  next same := same.map Core.next fun core => by cases part <;> rfl

/-- Cores that a part tells apart are treated alike by an instruction that does not read it. -/
theorem Instruction.execute_alike_of_unread {part : Core.Part} {dialect : Dialect} {byte : Byte}
    {instruction : Instruction} (unread : instruction.reads part = false) {first second : Core}
    (same : Core.SameBut part first second) :
    Outcome.Alike (Core.SameBut part)
      (instruction.execute dialect byte first) (instruction.execute dialect byte second) := by
  refine Outcome.Alike.of_map_forget_eq ?_
  rw [← execute_forget unread, show second.forget part = first.forget part from same,
    execute_forget unread]

namespace Machine

variable {Like : Core → Core → Prop} {first second : Machine}

/-- The instruction that comes up in the first machine, if one does, treats both alike. -/
def TreatsAlike (Like : Core → Core → Prop) (first second : Machine) : Prop :=
  ∀ word instruction, first.core.control = .running → first.core.fetch = .ok word →
    Instruction.decode? word = some instruction →
    Outcome.Alike Like
      (instruction.execute first.settings.dialect (first.supply instruction).1
        (first.latch word).core)
      (instruction.execute second.settings.dialect (first.supply instruction).1
        (second.latch word).core)

/-- Steps of machines alike go the same way and leave machines alike. -/
theorem step_alike (likeness : Core.Likeness Like) (like : Like first.core second.core)
    (random : second.random = first.random) (treats : TreatsAlike Like first second) :
    second.step.value = first.step.value ∧ Like first.step.after.core second.step.after.core ∧
      second.step.after.random = first.step.after.random := by
  have control := likeness.control like
  have fetch := likeness.fetch like
  have supply (instruction : Instruction) :
      second.supply instruction = first.supply instruction := by
    rw [supply, random, ← supply]
  have turn := first.turn_step
  generalize first.step = report at turn ⊢
  cases turn with
  | stopped idle =>
    rw [step_of_idle (by rw [control]; exact idle)]
    exact ⟨rfl, like, random⟩
  | unfetched running fault refused =>
    have step_eq : second.step = second.fail fault :=
      Turn.step_eq (.unfetched (control.trans running) fault (fetch.trans refused))
    rw [step_eq]
    exact ⟨rfl, likeness.next like, random⟩
  | undecoded running word fetched unknown =>
    have step_eq : second.step = (second.latch word).fail (.unknownInstruction word) :=
      Turn.step_eq (.undecoded (control.trans running) word (fetch.trans fetched) unknown)
    rw [step_eq]
    exact ⟨rfl, likeness.next (likeness.latch word like), random⟩
  | unexecuted running word instruction fault fetched decoded refused =>
    have alike := treats word instruction running fetched decoded
    rw [refused, ← supply] at alike
    have step_eq : second.step = (second.latch word).fail fault :=
      Turn.step_eq (.unexecuted (control.trans running) word instruction fault
        (fetch.trans fetched) decoded alike.eq_error)
    rw [step_eq]
    exact ⟨rfl, likeness.next (likeness.latch word like), random⟩
  | waiting running word instruction fetched decoded waits =>
    have alike := treats word instruction running fetched decoded
    rw [waits, ← supply] at alike
    have step_eq : second.step = { value := .awaitingKey, after := second.latch word } :=
      Turn.step_eq (.waiting (control.trans running) word instruction (fetch.trans fetched)
        decoded alike.eq_awaitingKey)
    rw [step_eq]
    exact ⟨rfl, likeness.latch word like, random⟩
  | executed running word instruction core fetched decoded ran =>
    have alike := treats word instruction running fetched decoded
    rw [ran, ← supply] at alike
    obtain ⟨core', outcome, like'⟩ := alike.exists_next
    have step_eq : second.step
        = (second.latch word).finish instruction core' (second.supply instruction).2 :=
      Turn.step_eq (.executed (control.trans running) word instruction core'
        (fetch.trans fetched) decoded outcome)
    rw [step_eq, supply]
    exact ⟨rfl, like', rfl⟩

end Machine

end ChipEight
