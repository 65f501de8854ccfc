import ChipEight.CommandLine.Options
/-!
# Arguments

The command line as a list of things said: each option together with its value,
wherever that stands.

## Main definitions

- `Argument` — one thing said
- `Argument.Shape`, `Argument.shape` — how a text on the command line looks
- `Argument.ofName`, `Argument.ofLetter`, `Argument.ofPlain` — what a text says
- `Argument.ofTexts` — the things that a command line says

## Design notes

Grouping needs no checks and never fails. An option is followed by its value
unless the next text looks like an option itself; behind a lone double hyphen
nothing looks like an option.
-/

namespace ChipEight

inductive Argument where
  | help
  | cosmac
  /-- An option and its value in one text, with an equals sign between them. -/
  | joined (field : Field) (value : String)
  /-- An option and its value in the next text, which may be missing. -/
  | separate (field : Field) (value : Option String)
  | rom (value : String)
  | rejected (error : UsageError)
  deriving DecidableEq, Repr

namespace Argument

inductive Shape where
  | terminator
  | long (name : List Char) (value : Option String)
  | short (letter : Char)
  /-- Anything else, a lone hyphen too. -/
  | plain
  deriving DecidableEq, Repr

/-- A name and a value split at the first equals sign. -/
def splitValue (text : List Char) : List Char × Option String :=
  match text.dropWhile (· ≠ '=') with
  | [] => (text, none)
  | _ :: value => (text.takeWhile (· ≠ '='), some (String.ofList value))

def shape (text : String) : Shape :=
  match text.toList with
  | ['-', '-'] => .terminator
  | '-' :: '-' :: rest => .long (splitValue rest).1 (splitValue rest).2
  | '-' :: letter :: _ => .short letter
  | _ => .plain

def fieldOf? (name : List Char) : Option Field :=
  if name = "seed".toList then some .seed
  else if name = "frames".toList then some .frames
  else if name = "ipf".toList then some .instructionsPerFrame
  else if name = "keys".toList then some .keys
  else none

/-- What a name says: something complete, or an option that waits for its value. -/
inductive Named where
  | complete (argument : Argument)
  | waits (field : Field)
  deriving DecidableEq, Repr

/-- What an option without a value says, given whether it was given one. -/
def bare (argument : Argument) : Option String → Named
  | none => .complete argument
  | some _ => .complete (.rejected .surplusValue)

/-- What a name says, with the value that may stand behind it in the same text. -/
def ofName (name : List Char) (value : Option String) : Named :=
  if name = "help".toList then bare .help value
  else if name = "cosmac".toList then bare .cosmac value
  else match fieldOf? name, value with
    | some field, some value => .complete (.joined field value)
    | some field, none => .waits field
    | none, _ => .complete (.rejected .unknownArgument)

def ofLetter (letter : Char) : Argument :=
  if letter = 'h' then .help else .rejected .unknownArgument

/-- What a text without a name says: the first one is the program, and there is
no second one. -/
def ofPlain (romGiven : Bool) (text : String) : Argument :=
  if romGiven then .rejected .unknownArgument else .rom text

def ofPlainTexts : (romGiven : Bool) → List String → List Argument
  | _, [] => []
  | romGiven, text :: rest => ofPlain romGiven text :: ofPlainTexts true rest

def unanswered : (waiting : Option Field) → List Argument
  | none => []
  | some field => [.separate field none]

/-- What the rest of a command line says, given whether the program is named
already and which option waits for its value. -/
def ofRest : (romGiven : Bool) → (waiting : Option Field) → List String → List Argument
  | _, waiting, [] => unanswered waiting
  | romGiven, waiting, text :: rest =>
    match shape text, waiting with
    -- only a plain text can be the value that an option waits for
    | .plain, some field => .separate field (some text) :: ofRest romGiven none rest
    | .plain, none => ofPlain romGiven text :: ofRest true none rest
    | .terminator, _ => unanswered waiting ++ ofPlainTexts romGiven rest
    | .short letter, _ => unanswered waiting ++ ofLetter letter :: ofRest romGiven none rest
    | .long name value, _ =>
      unanswered waiting ++
        match ofName name value with
        | .complete argument => argument :: ofRest romGiven none rest
        | .waits field => ofRest romGiven (some field) rest

def ofTexts (texts : List String) : List Argument :=
  ofRest false none texts

end Argument

end ChipEight
