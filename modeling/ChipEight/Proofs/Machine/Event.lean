import ChipEight.Proofs.Core.Panel
import ChipEight.Proofs.Machine.TraceLine
/-!
# The wording of events

What is reported of each event, with the texts spelled out: its level, its message and its fields.

## Main definitions

- `Fault.Worded` — the wording of a fault
- `Event.Tells` — the level, the message and the fields that tell of an event

## Main statements

- `Event.tells` — every event is reported so
- `Event.Tells.of_loaded`, `Event.Tells.of_controlChanged`, `Event.Tells.of_executed`,
  `Event.Tells.of_waitingForKey`, `Event.Tells.of_frame`, `Event.Tells.of_beep` — what is
  reported of some of them
-/

namespace ChipEight

/-- The wording of a fault, with the words in it written in four digits. -/
inductive Fault.Worded : Fault → String → Prop where
  | stackOverflow (pc : Word) : Worded (.stackOverflow pc)
      ("stack overflow: CALL at " ++ ("0x" ++ Text.hex 4 pc.toNat) ++ " with a full call stack")
  | stackUnderflow (pc : Word) : Worded (.stackUnderflow pc)
      ("stack underflow: RET at " ++ ("0x" ++ Text.hex 4 pc.toNat) ++ " with an empty call stack")
  | unknownInstruction (opcode : Word) : Worded (.unknownInstruction opcode)
      ("unknown instruction " ++ ("0x" ++ Text.hex 4 opcode.toNat))
  | addressOutOfRange (address : Word) : Worded (.addressOutOfRange address)
      ("memory access out of range at address " ++ ("0x" ++ Text.hex 4 address.toNat))
  | strayStackPointer (pc : Word) (sp : Byte) : Worded (.strayStackPointer pc sp)
      ("stray stack pointer: RET at " ++ ("0x" ++ Text.hex 4 pc.toNat) ++ " with "
        ++ Nat.repr sp.toNat ++ " entries")

theorem Fault.worded_message (fault : Fault) : fault.Worded fault.message := by
  cases fault <;> constructor

namespace Event

/-- The level, the message and the fields that tell of an event. What the event carries stands in
a field or, if it is larger, in the message. -/
inductive Tells : Event → Level → String → List (String × FieldValue) → Prop where
  | loaded (bytes : Nat) :
      Tells (.loaded bytes) .info "loaded program" [("bytes", .number bytes)]
  | reset : Tells .reset .info "machine reset" []
  | controlChanged {before after : Control} {name name' : String}
      (named : before.Named name) (named' : after.Named name') :
      Tells (.controlChanged before after) .debug "control state changed"
        [("from", .text name), ("to", .text name')]
  | waitingForKey (pc : Word) :
      Tells (.waitingForKey pc) .debug "waiting for a key" [("pc", .number pc.toNat)]
  | skipped (opcode : Word) {fault : Fault} {text : String} (worded : fault.Worded text) :
      Tells (.skipped opcode fault) .warn ("skipped instruction: " ++ text)
        [("opcode", .number opcode.toNat)]
  | executed (site : Word) {line : TraceLine} {text : String} (shown : line.Shown text) :
      Tells (.executed site line) .trace text [("at", .number site.toNat)]
  | frame (number attempted : Nat) {panel : Panel} {text : String} (shown : panel.Shown text) :
      Tells (.frame number attempted panel) .debug ("\n" ++ text)
        [("frame", .number number), ("executed", .number attempted)]
  | beepOn (number : Nat) :
      Tells (.beep number true) .info "beep on" [("frame", .number number)]
  | beepOff (number : Nat) :
      Tells (.beep number false) .info "beep off" [("frame", .number number)]

/-- Every event is reported with what tells of it. -/
theorem tells (event : Event) : event.Tells event.level event.message event.fields := by
  cases event with
  | loaded bytes => exact .loaded bytes
  | reset => exact .reset
  | controlChanged before after => exact .controlChanged before.named_text after.named_text
  | waitingForKey pc => exact .waitingForKey pc
  | skipped opcode fault => exact .skipped opcode fault.worded_message
  | executed site line => exact .executed site line.shown_text
  | frame number attempted panel => exact .frame number attempted panel.shown_text
  | beep number on =>
    cases on with
    | true => exact .beepOn number
    | false => exact .beepOff number

namespace Tells

variable {level : Level} {message : String} {fields : List (String × FieldValue)}

theorem of_loaded {bytes : Nat} (told : Tells (.loaded bytes) level message fields) :
    level = .info ∧ message = "loaded program" ∧ fields = [("bytes", .number bytes)] := by
  cases told with
  | loaded => exact ⟨rfl, rfl, rfl⟩

/-- A change of the control state is reported with both names. -/
theorem of_controlChanged {before after : Control}
    (told : Tells (.controlChanged before after) level message fields) :
    level = .debug ∧ message = "control state changed" ∧
      ∃ name name', before.Named name ∧ after.Named name' ∧
        fields = [("from", .text name), ("to", .text name')] := by
  cases told with
  | controlChanged named named' => exact ⟨rfl, rfl, _, _, named, named', rfl⟩

/-- An instruction that ran is traced. -/
theorem of_executed {site : Word} {line : TraceLine}
    (told : Tells (.executed site line) level message fields) :
    level = .trace ∧ line.Shown message ∧ fields = [("at", .number site.toNat)] := by
  cases told with
  | executed _ shown => exact ⟨rfl, shown, rfl⟩

theorem of_waitingForKey {pc : Word} (told : Tells (.waitingForKey pc) level message fields) :
    level = .debug ∧ message = "waiting for a key" ∧ fields = [("pc", .number pc.toNat)] := by
  cases told with
  | waitingForKey => exact ⟨rfl, rfl, rfl⟩

/-- A frame is reported with the panel behind it. -/
theorem of_frame {number attempted : Nat} {panel : Panel}
    (told : Tells (.frame number attempted panel) level message fields) :
    level = .debug ∧ (∃ text, panel.Shown text ∧ message = "\n" ++ text) ∧
      fields = [("frame", .number number), ("executed", .number attempted)] := by
  cases told with
  | frame _ _ shown => exact ⟨rfl, ⟨_, shown, rfl⟩, rfl⟩

theorem of_beep {number : Nat} {on : Bool} (told : Tells (.beep number on) level message fields) :
    level = .info ∧ message = (if on then "beep on" else "beep off") ∧
      fields = [("frame", .number number)] := by
  cases told with
  | beepOn | beepOff => exact ⟨rfl, rfl, rfl⟩

end Tells

end Event

end ChipEight
