import ChipEight.CommandLine.Argument
/-!
# Reading the command line

From the arguments to the options.

## Main definitions

- `Draft.read` — the draft with one more argument
- `Draft.readAll` — the draft with all arguments
- `Options.ofArguments` — the options of a command line

## Design notes

Arguments are read from left to right, and the first fault decides, with one
exception: a value that stands in a text of its own is looked at only when the
next argument has been recognised, so an argument that is rejected outranks a
fault in the value right before it.
-/

namespace ChipEight

namespace Draft

def read (draft : Draft) : Argument → Except UsageError Draft
  | .help => .error .helpRequested
  | .cosmac => draft.chooseCosmac
  | .joined field value => draft.put field (some value)
  | .separate field value => draft.put field value
  | .rom value => draft.put .rom (some value)
  | .rejected error => .error error

/-- The fault of an argument that is looked at before the value in front of it,
if it is one. -/
def rejection? : Argument → List Argument → Option UsageError
  | .separate _ _, .rejected error :: _ => some error
  | .rom _, .rejected error :: _ => some error
  | _, _ => none

def readAll (draft : Draft) : List Argument → Except UsageError Draft
  | [] => .ok draft
  | argument :: rest =>
    match rejection? argument rest with
    | some error => .error error
    | none =>
      match draft.read argument with
      | .ok draft => draft.readAll rest
      | .error error => .error error

end Draft

/-- The options of a command line, without the name of the program itself. -/
def Options.ofArguments (texts : List String) : Except UsageError Options :=
  match Draft.readAll {} (Argument.ofTexts texts) with
  | .ok draft => draft.options
  | .error error => .error error

end ChipEight
