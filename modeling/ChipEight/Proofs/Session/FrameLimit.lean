import ChipEight.Session
import ChipEight.Proofs.Machine.Intents
import ChipEight.Proofs.Machine.Redraw
/-!
# The frame limit of a session

A session lets its machine run frame by frame and halts it when the limit is reached. Up to
then the machine does what it would do without a session, and from then on nothing is done to
it: the session only counts on.

## Main definitions

- `Machine.shown` — the machine behind so many frames, without a session
- `Session.advances` — the session behind so many frames
- `Session.Settled` — a session that has nothing left to do

## Main statements

- `Session.machine_advance`, `Session.value_advance` — one frame of a session against one of
  its machine
- `Session.Settled.advance` — a frame of a session that has nothing left to do
- `Session.machine_advances_of_lt`, `Session.machine_advances_max` — the frames before the last
  one, and the last one
- `Session.halts_at_limit` — every session
-/

namespace ChipEight

/-- The machine behind so many frames, with its picture taken behind each of them. -/
def Machine.shown (machine : Machine) (count : Nat) : Machine :=
  (machine.performAll (List.replicate count [.runFrame, .takeFrame]).flatten).after

namespace Machine

theorem shown_succ (machine : Machine) (count : Nat) :
    machine.shown (count + 1) = (machine.shown count).runFrame.after.takeFrame.after := by
  rw [shown, List.replicate_succ', List.flatten_append, after_performAll_append]
  rfl

theorem after_takeFrame (machine : Machine) :
    machine.takeFrame.after = { machine with core := { machine.core with redraw := false } } :=
  machine.after_perform_takeFrame

theorem control_shown (machine : Machine) (count : Nat) :
    (machine.shown count).core.control = machine.core.control := by
  induction count with
  | zero => rfl
  | succ count ih =>
    rw [shown_succ, after_takeFrame]
    exact (control_runFrame _).trans ih

/-- A picture that was drawn on in a frame is handed out behind it. -/
theorem value_takeFrame_of_drawn {machine : Machine}
    (drawn : ∃ start ∈ machine.startsOf .runFrame, start.draws = true) :
    machine.runFrame.after.takeFrame.value = some machine.runFrame.after.core.screen := by
  have raised : machine.runFrame.after.core.redraw = true := by
    have signal := @redraw_perform machine .runFrame rfl
    rw [List.any_eq_true.mpr drawn, Bool.or_true] at signal
    exact signal
  rw [takeFrame, if_pos raised]

end Machine

namespace Session

/-- The session behind so many frames. -/
def advances : Nat → Session → Session
  | 0, session => session
  | count + 1, session => (advances count session).advance.after

/-- A session that has nothing left to do: its machine is halted, the picture was handed out,
and the beeper is as the sound timer has it. -/
structure Settled (session : Session) : Prop where
  halted : session.machine.core.control = .halted
  shown : session.machine.core.redraw = false
  beeping : session.beeping = session.machine.core.sounding

variable {session : Session}

theorem after_haltAtLimit (session : Session) (frames : Nat) (machine : Machine) :
    (session.haltAtLimit frames machine).after = { machine with core := { machine.core with
      control := if session.limitReached frames then .halted else machine.core.control } } := by
  unfold haltAtLimit
  split
  · have halted : machine.core.control.after .halt = .halted := by
      cases machine.core.control <;> rfl
    rw [← halted]
    exact Machine.after_perform_apply Intent.noConfusion machine
  · rfl

/-- Whether the machine is halted or not, its picture is handed out. -/
theorem value_advance (session : Session) :
    session.advance.value = session.machine.runFrame.after.takeFrame.value := by
  simp only [advance, after_haltAtLimit, Machine.takeFrame]
  split
  · rfl
  · rfl

/-- A frame of a session is one of its machine, which is halted behind the last one. -/
theorem machine_advance (session : Session) :
    let next := session.machine.runFrame.after.takeFrame.after
    session.advance.after.machine = { next with core := { next.core with
      control := if session.limitReached (session.frames + 1) then .halted
        else next.core.control } } := by
  simp only [advance, Machine.after_takeFrame, after_haltAtLimit]

/-- Behind any frame the beeper is as the sound timer has it: the limit and the picture come
later, and neither touches the timer. -/
theorem beeping_advance (session : Session) :
    session.advance.after.beeping = session.advance.after.machine.core.sounding := by
  rw [machine_advance, Machine.after_takeFrame]
  rfl

/-- Behind any frame the picture is handed out and the beeper follows the sound timer, so a
session whose machine is halted there is settled. -/
theorem settled_advance (halted : session.advance.after.machine.core.control = .halted) :
    session.advance.after.Settled where
  halted := halted
  shown := by
    rw [machine_advance, Machine.after_takeFrame]
  beeping := session.beeping_advance

/-- Nothing happens in a settled session but that the frame is counted and reported. -/
theorem Settled.advance (settled : session.Settled) :
    session.advance =
      { value := none
        after := { session with frames := session.frames + 1 }
        events := #[.frame (session.frames + 1) 0 session.machine.core.panel] } := by
  obtain ⟨halted, shown, beeping⟩ := settled
  have still : session.machine.runFrame = { value := 0, after := session.machine } :=
    Machine.runFrame_of_idle (by rw [halted]; exact Control.noConfusion)
  have left : session.haltAtLimit (session.frames + 1) session.machine
      = { value := (), after := session.machine } := by
    simp [haltAtLimit, Machine.apply, Machine.setControl, Control.after, halted]
  simp [Session.advance, still, left, Machine.takeFrame, shown, beeperEvents, ← beeping]

theorem Settled.next (settled : session.Settled) : session.advance.after.Settled := by
  rw [settled.advance]
  exact ⟨settled.halted, settled.shown, settled.beeping⟩

theorem frames_advances (count : Nat) (session : Session) :
    (session.advances count).frames = session.frames + count := by
  induction count with
  | zero => rfl
  | succ count ih =>
    show (session.advances count).frames + 1 = session.frames + (count + 1)
    rw [ih, Nat.add_assoc]

theorem limit_advances (count : Nat) (session : Session) :
    (session.advances count).limit = session.limit := by
  induction count with
  | zero => rfl
  | succ count ih => exact ih

/-- As long as the limit is not reached, the machine does what it does without a session. -/
theorem machine_advances_of_unlimited {count : Nat}
    (below : ∀ n < count, session.limitReached (session.frames + (n + 1)) = false) :
    (session.advances count).machine = session.machine.shown count := by
  induction count with
  | zero => rfl
  | succ count ih =>
    have before := ih fun n lt => below n (Nat.lt_succ_of_lt lt)
    have open_end : (session.advances count).limitReached ((session.advances count).frames + 1)
        = false := by
      rw [limitReached, limit_advances, frames_advances, Nat.add_assoc]
      exact below count (Nat.lt_succ_self count)
    rw [advances, machine_advance, open_end, before, Machine.shown_succ]
    rfl

/-- A session that is settled stays so. -/
theorem Settled.advances {first count : Nat} (settled : (session.advances first).Settled)
    (le : first ≤ count) : (session.advances count).Settled := by
  induction le with
  | refl => exact settled
  | step _ ih => exact ih.next

theorem halted_eq_false {machine : Machine} (running : machine.core.control = .running)
    {count : Nat} (same : (session.advances count).machine = machine.shown count) :
    (session.advances count).halted = false := by
  rw [halted, same, Machine.control_shown, running]
  rfl

section Bounded

variable {bound count : Nat}

theorem limitReached_iff (bounded : session.limit = some bound) :
    session.limitReached count = true ↔ bound ≤ count := by
  rw [limitReached, bounded, decide_eq_true_iff]

/-- Before the last frame the machine does what it does without a session. -/
theorem machine_advances_of_lt (new : session.frames = 0) (bounded : session.limit = some bound)
    (lt : count < max bound 1) : (session.advances count).machine = session.machine.shown count := by
  refine machine_advances_of_unlimited fun n before => ?_
  rw [← Bool.not_eq_true, limitReached_iff bounded, new]
  omega

/-- The last frame leaves what it leaves without a session, but halted. -/
theorem machine_advances_max (new : session.frames = 0) (bounded : session.limit = some bound) :
    (session.advances (max bound 1)).machine = { session.machine.shown (max bound 1) with core :=
      { (session.machine.shown (max bound 1)).core with control := .halted } } := by
  obtain ⟨before, last⟩ := Nat.exists_eq_add_one_of_ne_zero (by omega : max bound 1 ≠ 0)
  have reached : (session.advances before).limitReached ((session.advances before).frames + 1)
      = true := by
    rw [limitReached, limit_advances, frames_advances, new]
    exact (limitReached_iff bounded).mpr (by omega)
  rw [last, advances, machine_advance, reached, machine_advances_of_lt new bounded (by omega),
    Machine.shown_succ]
  rfl

/-- From the last frame on nothing is left to do. -/
theorem settled_advances_of_max_le (new : session.frames = 0) (bounded : session.limit = some bound)
    (le : max bound 1 ≤ count) : (session.advances count).Settled := by
  have halted : (session.advances (max bound 1)).machine.core.control = .halted := by
    rw [machine_advances_max new bounded]
  refine Settled.advances ?_ le
  obtain ⟨before, last⟩ := Nat.exists_eq_add_one_of_ne_zero (by omega : max bound 1 ≠ 0)
  rw [last] at halted ⊢
  exact settled_advance halted

/-- The session is over behind its last frame and not before. -/
theorem halted_advances_iff (new : session.frames = 0) (bounded : session.limit = some bound)
    (running : session.machine.core.control = .running) :
    (session.advances count).halted = true ↔ max bound 1 ≤ count := by
  refine ⟨fun halted => ?_, fun le => ?_⟩
  · by_contra early
    have open_yet := halted_eq_false running (machine_advances_of_lt new bounded (not_le.mp early))
    rw [halted] at open_yet
    cases open_yet
  · exact decide_eq_true (settled_advances_of_max_le new bounded le).halted

end Bounded

/-- A session whose machine runs when it begins.

It counts every frame. Without a limit it goes on for ever, and its machine does what it does
without a session. With a limit it is over behind as many frames, and behind one if the limit
is zero. Before that its machine does what it does without a session; the last frame halts it
and changes nothing else, and hands out its picture as every frame before it. From then on a
frame hands out nothing, executes nothing and changes nothing but the count. -/
theorem halts_at_limit (machine : Machine) (limit : Option Nat)
    (running : machine.core.control = .running) :
    let session : Session := { machine, limit }
    let behind (count : Nat) := session.advances count
    (∀ count, (behind count).frames = count) ∧
    (limit = none → ∀ count,
      (behind count).halted = false ∧ (behind count).machine = machine.shown count) ∧
    ∀ bound, limit = some bound →
      let last := max bound 1
      (∀ count < last, (behind count).halted = false ∧
        (behind count).machine = machine.shown count ∧
        (behind count).advance.value = (machine.shown count).runFrame.after.takeFrame.value ∧
        ((∃ start ∈ (machine.shown count).startsOf .runFrame, start.draws = true) →
          (behind count).advance.value = some (machine.shown count).runFrame.after.core.screen)) ∧
      (behind last).machine = { machine.shown last with core :=
        { (machine.shown last).core with control := .halted } } ∧
      ∀ count ≥ last, (behind count).halted = true ∧
        (behind count).advance =
          { value := none
            after := { behind count with frames := count + 1 }
            events := #[.frame (count + 1) 0 (behind count).machine.core.panel] } := by
  intro session behind
  have counted (count : Nat) : (behind count).frames = count :=
    (frames_advances count session).trans (Nat.zero_add count)
  refine ⟨counted, ?_, ?_⟩
  · rintro rfl count
    have same : (behind count).machine = machine.shown count :=
      machine_advances_of_unlimited fun _ _ => rfl
    exact ⟨halted_eq_false running same, same⟩
  · rintro bound rfl last
    refine ⟨fun count lt => ?_, machine_advances_max rfl rfl, fun count ge => ?_⟩
    · have same : (behind count).machine = machine.shown count := machine_advances_of_lt rfl rfl lt
      have value : (behind count).advance.value
          = (machine.shown count).runFrame.after.takeFrame.value := by
        rw [value_advance, same]
      refine ⟨halted_eq_false running same, same, value, fun drawn => ?_⟩
      rw [value]
      exact Machine.value_takeFrame_of_drawn drawn
    · have settled : (behind count).Settled := settled_advances_of_max_le rfl rfl ge
      have still := settled.advance
      rw [counted] at still
      exact ⟨(halted_advances_iff rfl rfl running).mpr ge, still⟩

/-- Under a limit of zero one frame is played, and the picture drawn in it is handed out. The
frame behind it neither ticks the timer that the program has set nor goes on with the program. -/
theorem halts_at_limit_zero :
    let program : List Byte := [0x6A, 0x09, 0xFA, 0x15, 0xD0, 0x05, 0x12, 0x06]
    let machine : Machine :=
      { core := { Core.fresh with memory := overwrite Memory.fresh Memory.programStart program }
        settings := { instructionsPerFrame := 4 }
        random := .cycle [0] }
    let session : Session := { machine, limit := some 0 }
    machine.core.control = .running ∧
      (∃ start ∈ machine.startsOf .runFrame, start.draws = true) ∧
      session.halted = false ∧ session.advance.value = some machine.runFrame.after.core.screen ∧
      session.advance.after.halted = true ∧ session.advance.after.machine.core.delay = 8 ∧
      session.advance.after.advance.after = { session.advance.after with frames := 2 } := by
  intro program machine session
  obtain ⟨drawn, delay⟩ :
      (∃ start ∈ machine.startsOf .runFrame, start.draws = true) ∧
        session.advance.after.machine.core.delay = 8 := by decide +kernel
  obtain ⟨_, _, limited⟩ := halts_at_limit machine (some 0) rfl
  obtain ⟨before, _, behind⟩ := limited 0 rfl
  obtain ⟨open_yet, _, _, value⟩ := before 0 Nat.one_pos
  obtain ⟨halted, still⟩ := behind 1 (Nat.le_refl 1)
  exact ⟨rfl, drawn, open_yet, value drawn, halted, delay, congrArg Report.after still⟩

end Session

end ChipEight
