import ChipEight.Proofs.Machine.Log
import ChipEight.Proofs.Session.FrameLimit
/-!
# The beeper of a session

A session looks at the sound timer once a frame, behind the frame, and reports the beeper where
that is a change. So its beeps alternate, however often a program sets the timer within a frame,
and they stop when the machine is halted and the timer stands still.

## Main definitions

- `Signal.changes` — the changes of a signal that was off at the beginning
- `Event.frame?`, `Event.beep?` — what a session reports apart from its machine
- `Session.log` — all that is reported in so many frames
- `Session.heard` — whether the sound timer runs behind so many frames

## Main statements

- `Signal.map_snd_changes`, `Signal.pairwise_changes`, `Signal.getLast?_changes` — changes
  alternate, come one after the other, and end at what the signal is now
- `Session.filter_advance` — what a session reports in one frame, apart from its machine
- `Session.filter_frame?_advance`, `Session.filter_beep?_advance` — the frame and the beeper
- `Session.filterMap_beep?_log` — the beeps of a session are the changes of what is heard
- `Session.beeps_alternate` — every session
-/

namespace ChipEight

namespace Signal

/-- When a signal has changed up to a time, and to what. -/
def changes (signal : Nat → Bool) : Nat → List (Nat × Bool)
  | 0 => []
  | time + 1 => changes signal time ++
      if signal (time + 1) = signal time then [] else [(time + 1, signal (time + 1))]

variable {signal : Nat → Bool}

theorem le_of_mem_changes {time : Nat} {change : Nat × Bool}
    (member : change ∈ changes signal time) : change.1 ≤ time := by
  induction time with
  | zero => cases member
  | succ time ih =>
    rcases List.mem_append.mp member with before | now
    · exact Nat.le_succ_of_le (ih before)
    · split at now
      · cases now
      · rw [List.mem_singleton.mp now]

/-- No two changes come at one time. -/
theorem pairwise_changes (signal : Nat → Bool) (time : Nat) :
    ((changes signal time).map Prod.fst).Pairwise (· < ·) := by
  induction time with
  | zero => exact List.Pairwise.nil
  | succ time ih =>
    rw [changes]
    split
    · rwa [List.append_nil]
    · rw [List.map_append, List.pairwise_append]
      refine ⟨ih, List.pairwise_singleton _ _, fun before member now same => ?_⟩
      obtain ⟨change, changed, rfl⟩ := List.mem_map.mp member
      rw [List.mem_singleton.mp same]
      exact Nat.lt_succ_of_le (le_of_mem_changes changed)

/-- A signal that was off at the beginning is on behind an odd number of changes. -/
theorem eq_odd_length (off : signal 0 = false) (time : Nat) :
    signal time = decide ((changes signal time).length % 2 = 1) := by
  induction time with
  | zero => exact off
  | succ time ih =>
    rw [changes]
    split
    · next same => rw [same, ih, List.append_nil]
    · next changed =>
      rw [Bool.eq_not_of_ne changed, ih, List.length_append, List.length_singleton, ← decide_not]
      exact decide_eq_decide.mpr (by omega)

/-- The changes are to on and to off in turn, beginning with on. -/
theorem map_snd_changes (off : signal 0 = false) (time : Nat) :
    (changes signal time).map Prod.snd
      = (List.range (changes signal time).length).map fun k => decide (k % 2 = 0) := by
  induction time with
  | zero => rfl
  | succ time ih =>
    rw [changes]
    split
    · rwa [List.append_nil]
    · next changed =>
      have now : signal (time + 1) = decide ((changes signal time).length % 2 = 0) := by
        rw [Bool.eq_not_of_ne changed, eq_odd_length off time, ← decide_not]
        exact decide_eq_decide.mpr (by omega)
      rw [List.map_append, ih, List.length_append, List.length_singleton, List.range_succ,
        List.map_append, List.map_singleton, List.map_singleton, now]

/-- The last change tells what the signal is now. -/
theorem getLast?_changes (off : signal 0 = false) (time : Nat) :
    ((changes signal time).getLast?.map Prod.snd).getD false = signal time := by
  induction time with
  | zero => exact off.symm
  | succ time ih =>
    rw [changes]
    split
    · next same => rw [List.append_nil, ih, same]
    · rw [List.getLast?_append]
      rfl

end Signal

/-- The beeper sounds while the sound timer has not run out. -/
theorem Core.sounding_eq (core : Core) : core.sounding = decide (0 < core.sound) := by
  rw [sounding, Bool.eq_iff_iff, bne_iff_ne, decide_eq_true_iff]
  exact UInt8.pos_iff_ne_zero.symm

namespace Event

/-- The number of a frame that is reported, and how many instructions it attempted. -/
def frame? : Event → Option (Nat × Nat)
  | .frame number attempted _ => some (number, attempted)
  | _ => none

/-- The frame at which the beeper is reported, and whether it is on. -/
def beep? : Event → Option (Nat × Bool)
  | .beep number on => some (number, on)
  | _ => none

theorem eq_beep_of_beep? {event : Event} {number : Nat} {on : Bool}
    (beep : event.beep? = some (number, on)) : event = .beep number on := by
  cases event with
  | beep => cases beep; rfl
  | _ => cases beep

end Event

/-- What is found in a list is found in the members that have it. -/
theorem List.filterMap_filter_isSome {α β : Type} (find? : α → Option β) (members : List α) :
    (members.filter fun a => (find? a).isSome).filterMap find? = members.filterMap find? := by
  rw [List.filterMap_filter]
  refine List.filterMap_congr fun a _ => ?_
  cases find? a <;> rfl

/-- A machine reports neither the end of a frame nor the beeper. -/
theorem Machine.unseen_runFrame (machine : Machine) :
    ∀ event ∈ machine.runFrame.events.toList, event.frame? = none ∧ event.beep? = none := by
  intro event member
  rw [machine.report_runFrame.1] at member
  obtain ⟨start, -, entry⟩ := List.mem_filterMap.mp member
  rw [logged?] at entry
  cases hvalue : start.step.value with
  | stopped =>
    rw [hvalue] at entry
    cases entry
  | _ =>
    rw [hvalue] at entry
    cases entry
    exact ⟨rfl, rfl⟩

namespace Session

/-- All that is reported in so many frames of a session. -/
def log (session : Session) (count : Nat) : List Event :=
  (List.range count).flatMap fun frame => (session.advances frame).advance.events.toList

/-- Whether the sound timer runs behind so many frames of a session, where nothing counts as
heard before the first one. -/
def heard (session : Session) : Nat → Bool
  | 0 => false
  | frame + 1 => decide (0 < (session.advances (frame + 1)).machine.core.sound)

variable {session : Session}

theorem unseen_haltAtLimit (session : Session) (frames : Nat) (machine : Machine) :
    ∀ event ∈ (session.haltAtLimit frames machine).events.toList,
      event.frame? = none ∧ event.beep? = none := by
  intro event member
  unfold haltAtLimit at member
  split at member
  · have no_reset : Intent.halt ≠ .reset := Intent.noConfusion
    rw [show (machine.apply .halt).events = _ from Machine.events_perform_apply no_reset machine]
      at member
    split at member
    · cases member
    · rw [List.mem_singleton.mp member]
      exact ⟨rfl, rfl⟩
  · cases member

theorem events_advance (session : Session) :
    session.advance.events.toList =
      session.machine.runFrame.events.toList
        ++ [.frame (session.frames + 1) session.machine.runFrame.value
          session.machine.runFrame.after.core.panel]
        ++ (session.beeperEvents (session.frames + 1)
          session.machine.runFrame.after.core.sounding).toList
        ++ (session.haltAtLimit (session.frames + 1)
          session.machine.runFrame.after).events.toList := by
  simp [advance]

/-- Of what is reported in a frame only the end of the frame and the beeper do not come from the
machine. -/
theorem filter_advance (session : Session) {seen : Event → Bool}
    (unseen : ∀ event, event.frame? = none → event.beep? = none → ¬ seen event = true) :
    session.advance.events.toList.filter seen
      = ([Event.frame (session.frames + 1) session.machine.runFrame.value
            session.machine.runFrame.after.core.panel]
          ++ (session.beeperEvents (session.frames + 1)
            session.machine.runFrame.after.core.sounding).toList).filter seen := by
  have machine : session.machine.runFrame.events.toList.filter seen = [] :=
    List.filter_eq_nil_iff.mpr fun event member =>
      have ⟨frame, beep⟩ := session.machine.unseen_runFrame event member
      unseen event frame beep
  have limit : (session.haltAtLimit (session.frames + 1)
      session.machine.runFrame.after).events.toList.filter seen = [] :=
    List.filter_eq_nil_iff.mpr fun event member =>
      have ⟨frame, beep⟩ := session.unseen_haltAtLimit _ _ event member
      unseen event frame beep
  rw [events_advance, List.filter_append, List.append_assoc, List.filter_append, machine, limit,
    List.nil_append, List.append_nil]

/-- A frame is reported once, with its number and what it attempted. -/
theorem filter_frame?_advance (session : Session) :
    session.advance.events.toList.filter (fun event => event.frame?.isSome)
      = [.frame (session.frames + 1) session.machine.runFrame.value
          session.machine.runFrame.after.core.panel] := by
  rw [filter_advance session fun event frame _ => by simp [frame], beeperEvents]
  split <;> rfl

/-- The beeper is reported where it changes. -/
theorem filter_beep?_advance (session : Session) :
    session.advance.events.toList.filter (fun event => event.beep?.isSome)
      = if session.advance.after.beeping = session.beeping then []
        else [.beep (session.frames + 1) session.advance.after.beeping] := by
  rw [filter_advance session fun event _ beep => by simp [beep], beeperEvents]
  show _ = if session.machine.runFrame.after.core.sounding = session.beeping then _ else _
  split <;> rfl

theorem log_succ (session : Session) (count : Nat) :
    session.log (count + 1)
      = session.log count ++ (session.advances count).advance.events.toList := by
  simp [log, List.range_succ]

section New

variable (quiet : session.beeping = false)

include quiet

/-- The flag of a session that begins without a beep is what was heard behind the last frame. -/
theorem beeping_advances (count : Nat) :
    (session.advances count).beeping = session.heard count := by
  cases count with
  | zero => exact quiet
  | succ count =>
    exact (session.advances count).beeping_advance.trans (Core.sounding_eq _)

theorem filterMap_beep?_advances (count : Nat) :
    (session.advances count).advance.events.toList.filterMap Event.beep?
      = if session.heard (count + 1) = session.heard count then []
        else [(session.frames + count + 1, session.heard (count + 1))] := by
  rw [← List.filterMap_filter_isSome, filter_beep?_advance, frames_advances,
    ← beeping_advances quiet, ← beeping_advances quiet]
  show _ = if (session.advances count).advance.after.beeping = _ then _ else _
  split <;> rfl

/-- The beeps of a session are the changes of what is heard. -/
theorem filterMap_beep?_log (new : session.frames = 0) (count : Nat) :
    (session.log count).filterMap Event.beep? = Signal.changes session.heard count := by
  induction count with
  | zero => rfl
  | succ count ih =>
    rw [log_succ, List.filterMap_append, ih, filterMap_beep?_advances quiet, new, Nat.zero_add,
      Signal.changes]

end New

/-- A session from its beginning, over any number of frames, up to its limit and beyond.

Every frame is reported once, with its number, the count of its instructions and the panel behind
it. The beeper is reported in a frame exactly if the sound timer runs behind it and did not run
behind the frame before, or the other way round; nothing was heard before the first frame. So over
the whole session the beeps are on and off in turn, beginning with on, and their frames come one
after the other. Behind every frame the flag of the session tells whether the sound timer runs,
and that is what the last beep told. -/
theorem beeps_alternate (machine : Machine) (limit : Option Nat) :
    let session : Session := { machine, limit }
    let behind (count : Nat) := session.advances count
    let beeps (count : Nat) := (session.log count).filterMap Event.beep?
    (∀ count,
      let run := (behind count).machine.runFrame
      let reports := (behind count).advance.events.toList
      (∃ event, reports.filter (fun event => event.frame?.isSome) = [event] ∧
        event.level = .debug ∧
        (∃ text, run.after.core.panel.Shown text ∧ event.message = "\n" ++ text) ∧
        event.fields = [("frame", .number (count + 1)), ("executed", .number run.value)]) ∧
      reports.filterMap Event.frame? = [(count + 1, run.value)] ∧
      reports.filterMap Event.beep?
        = (if session.heard (count + 1) = session.heard count then []
          else [(count + 1, session.heard (count + 1))]) ∧
      ∀ event ∈ reports, ∀ number on, event.beep? = some (number, on) →
        event.level = .info ∧ event.message = (if on then "beep on" else "beep off") ∧
        event.fields = [("frame", .number number)]) ∧
    ∀ count,
      (beeps count).map Prod.snd
        = (List.range (beeps count).length).map (fun k => decide (k % 2 = 0)) ∧
      ((beeps count).map Prod.fst).Pairwise (· < ·) ∧
      (behind (count + 1)).beeping = (behind (count + 1)).machine.core.sounding ∧
      (behind (count + 1)).beeping = decide (0 < (behind (count + 1)).machine.core.sound) ∧
      (behind count).beeping = ((beeps count).getLast?.map Prod.snd).getD false := by
  intro session behind beeps
  have counted (count : Nat) : (behind count).frames = count :=
    (frames_advances count session).trans (Nat.zero_add count)
  have changes (count : Nat) : beeps count = Signal.changes session.heard count :=
    filterMap_beep?_log rfl rfl count
  have reported (count : Nat) := (behind count).filter_frame?_advance
  simp only [counted] at reported
  refine ⟨fun count => ⟨⟨_, reported count, (Event.tells _).of_frame⟩, ?_, ?_,
    fun event _ number on beep => ?_⟩, fun count => ⟨?_, ?_, ?_, ?_, ?_⟩⟩
  · rw [← List.filterMap_filter_isSome, reported]
    rfl
  · rw [filterMap_beep?_advances rfl, Nat.zero_add]
  · rw [Event.eq_beep_of_beep? beep]
    exact (Event.tells _).of_beep
  · rw [changes]
    exact Signal.map_snd_changes rfl count
  · rw [changes]
    exact Signal.pairwise_changes _ count
  · exact (behind count).beeping_advance
  · exact beeping_advances rfl (count + 1)
  · rw [changes, Signal.getLast?_changes rfl]
    exact beeping_advances rfl count

end Session

end ChipEight
