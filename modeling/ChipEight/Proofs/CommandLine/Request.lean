import ChipEight.CommandLine.Argument
import ChipEight.Proofs.Text.Numeral
import Mathlib.Data.List.Forall2
import Mathlib.Data.List.TakeWhile
/-!
# Requests

What can be asked for on the command line, one thing at a time, and how it is spelled: the program
by its name, an option by its own name with two hyphens, with its value in the same text or in the
next one. The texts of a request are read as one argument, whatever stands behind them.

## Main definitions

- `Request` — one thing asked for
- `Request.Given` — the texts that give an option its value
- `Request.Spelled` — the texts of a request on the command line
- `Argument.Asks` — the arguments that ask for the same as a request
- `Argument.Reads` — the argument that the texts of a request are

## Main statements

- `Argument.shape_of_undashed`, `Argument.shape_of_dashes` — how such texts look
- `Argument.exists_reads` — the texts of one request in front of others
- `Argument.asks_ofRest_flatten`, `Argument.rejected_mem_ofRest_flatten` — the texts of any number
  of requests
-/

namespace ChipEight

/-- One thing that is asked for on the command line. -/
inductive Request where
  | rom (path : String)
  | cosmac
  | seed (n : UInt64)
  | frames (n : UInt64)
  | instructionsPerFrame (n : UInt64)
  | keys (chars : String)
  deriving DecidableEq, Repr

namespace Request

/-- The name of the option; the program is asked for without one. -/
def name? : Request → Option String
  | .rom _ => none
  | .cosmac => some "cosmac"
  | .seed _ => some "seed"
  | .frames _ => some "frames"
  | .instructionsPerFrame _ => some "ipf"
  | .keys _ => some "keys"

/-- The value of an option as a text: any numeral of a number, and the keys as they are. -/
inductive Given : Request → Field → String → Prop where
  | seed {n : UInt64} {text : String} (denotes : Text.Denotes text n.toNat) :
      Given (.seed n) .seed text
  | frames {n : UInt64} {text : String} (denotes : Text.Denotes text n.toNat) :
      Given (.frames n) .frames text
  | instructionsPerFrame {n : UInt64} {text : String} (denotes : Text.Denotes text n.toNat) :
      Given (.instructionsPerFrame n) .instructionsPerFrame text
  | keys (chars : String) : Given (.keys chars) .keys chars

/-- The texts that ask for something. Only a value behind an equals sign may begin with a hyphen. -/
inductive Spelled : Request → List String → Prop where
  | rom {path : String} (nonempty : path ≠ "") (undashed : path.toList.head? ≠ some '-') :
      Spelled (.rom path) [path]
  | cosmac : Spelled .cosmac ["--cosmac"]
  | joined {request : Request} {name : String} {field : Field} {text : String}
      (named : request.name? = some name) (given : request.Given field text) :
      Spelled request ["--" ++ name ++ "=" ++ text]
  | separate {request : Request} {name : String} {field : Field} {text : String}
      (named : request.name? = some name) (given : request.Given field text)
      (undashed : text.toList.head? ≠ some '-') : Spelled request ["--" ++ name, text]

end Request

namespace Argument

/-- The argument asks for the same as the request. -/
inductive Asks : Argument → Request → Prop where
  | rom {path : String} (nonempty : path ≠ "") : Asks (.rom path) (.rom path)
  | cosmac : Asks .cosmac .cosmac
  | joined {request : Request} {field : Field} {text : String}
      (given : request.Given field text) : Asks (.joined field text) request
  | separate {request : Request} {field : Field} {text : String}
      (given : request.Given field text) : Asks (.separate field (some text)) request

section Shapes

variable {name : List Char} {text : String}

theorem splitValue_of_not_mem (absent : '=' ∉ name) : splitValue name = (name, none) := by
  have whole : name.dropWhile (· ≠ '=') = [] := List.dropWhile_eq_nil_iff.mpr fun c member =>
    decide_eq_true fun same => absent (same ▸ member)
  rw [splitValue, whole]

theorem splitValue_append (absent : '=' ∉ name) (value : List Char) :
    splitValue (name ++ '=' :: value) = (name, some (String.ofList value)) := by
  have other (c : Char) (member : c ∈ name) : decide (c ≠ '=') = true :=
    decide_eq_true fun same => absent (same ▸ member)
  have behind : (name ++ '=' :: value).dropWhile (· ≠ '=') = '=' :: value := by
    rw [List.dropWhile_append_of_pos other]
    rfl
  have before : (name ++ '=' :: value).takeWhile (· ≠ '=') = name := by
    rw [List.takeWhile_append_of_pos other]
    exact List.append_nil name
  rw [splitValue, behind, before]

theorem shape_of_undashed (undashed : text.toList.head? ≠ some '-') : shape text = .plain := by
  rw [shape]
  split
  · next dashes => exact absurd (by rw [dashes]; rfl) undashed
  · next dashes => exact absurd (by rw [dashes]; rfl) undashed
  · next dash => exact absurd (by rw [dash]; rfl) undashed
  · rfl

/-- Two hyphens with something behind them. -/
theorem shape_of_dashes {rest : List Char} (some : rest ≠ [])
    (dashes : text.toList = '-' :: '-' :: rest) :
    shape text = .long (splitValue rest).1 (splitValue rest).2 := by
  rw [shape, dashes]
  cases rest with
  | nil => exact absurd rfl some
  | cons c rest => rfl

end Shapes

section Texts

variable {request : Request} {name : String} {field : Field} {text : String}

/-- The names of the options that have a value. -/
theorem ofName_of_given (named : request.name? = some name) (given : request.Given field text) :
    ofName name.toList (some text) = .complete (.joined field text) ∧
      ofName name.toList none = .waits field ∧ name.toList ≠ [] ∧ '=' ∉ name.toList := by
  cases given with
  | seed | frames | instructionsPerFrame | keys =>
    cases named
    exact ⟨rfl, rfl, by decide, by decide⟩

theorem shape_of_name (some : name.toList ≠ []) (absent : '=' ∉ name.toList) :
    shape ("--" ++ name) = .long name.toList none := by
  rw [shape_of_dashes some String.toList_append, splitValue_of_not_mem absent]

theorem shape_of_name_value (absent : '=' ∉ name.toList) :
    shape ("--" ++ name ++ "=" ++ text) = .long name.toList (some text) := by
  have dashes : ("--" ++ name ++ "=" ++ text).toList
      = '-' :: '-' :: (name.toList ++ '=' :: text.toList) := by
    simp only [String.toList_append, List.append_assoc]
    rfl
  rw [shape_of_dashes (by simp) dashes, splitValue_append absent, String.ofList_toList]

theorem ofRest_of_plain (plain : shape text = .plain) (romGiven : Bool) (rest : List String) :
    ofRest romGiven none (text :: rest) = ofPlain romGiven text :: ofRest true none rest := by
  simp only [ofRest, plain]

theorem ofRest_of_complete {value : Option String} {argument : Argument}
    (long : shape text = .long name.toList value)
    (complete : ofName name.toList value = .complete argument) (romGiven : Bool)
    (rest : List String) :
    ofRest romGiven none (text :: rest) = argument :: ofRest romGiven none rest := by
  simp only [ofRest, long, complete, unanswered, List.nil_append]

/-- An option that waits for its value takes it from the next text. -/
theorem ofRest_of_waits {option : String} (long : shape option = .long name.toList none)
    (waits : ofName name.toList none = .waits field) (plain : shape text = .plain)
    (romGiven : Bool) (rest : List String) :
    ofRest romGiven none (option :: text :: rest)
      = .separate field (some text) :: ofRest romGiven none rest := by
  simp only [ofRest, long, waits, plain, unanswered, List.nil_append]

/-- The texts of a request are one argument, whatever stands behind them. It asks for the same,
unless this is a second program. -/
structure Reads (romGiven : Bool) (request : Request) (texts : List String) (argument : Argument) :
    Prop where
  asks : request.name? ≠ none ∨ romGiven = false → argument.Asks request
  second : request.name? = none → romGiven = true → argument = .rejected .unknownArgument
  split : ∀ rest, ofRest romGiven none (texts ++ rest)
    = argument :: ofRest (romGiven || request.name?.isNone) none rest

/-- An option asks for the same with and without a program in front of it. -/
theorem reads_of_named {romGiven : Bool} {texts : List String} {argument : Argument}
    (named : request.name? = some name) (asks : argument.Asks request)
    (split : ∀ rest, ofRest romGiven none (texts ++ rest)
      = argument :: ofRest romGiven none rest) : Reads romGiven request texts argument := by
  refine ⟨fun _ => asks, fun unnamed => ?_, fun rest => ?_⟩
  · rw [named] at unnamed
    cases unnamed
  · rw [split, named, Option.isNone_some, Bool.or_false]

theorem exists_reads {texts : List String} (spelled : request.Spelled texts) (romGiven : Bool) :
    ∃ argument, Reads romGiven request texts argument := by
  cases spelled with
  | @rom path nonempty undashed =>
    refine ⟨ofPlain romGiven path, fun first => ?_, fun _ second => ?_, fun rest => ?_⟩
    · rw [first.resolve_left fun named => named rfl]
      exact .rom nonempty
    · rw [second]
      rfl
    · rw [List.singleton_append, ofRest_of_plain (shape_of_undashed undashed), Request.name?,
        Option.isNone_none, Bool.or_true]
  | cosmac =>
    have long : shape "--cosmac" = .long "cosmac".toList none := rfl
    exact ⟨_, reads_of_named rfl .cosmac (ofRest_of_complete long rfl romGiven)⟩
  | joined named given =>
    obtain ⟨complete, -, -, absent⟩ := ofName_of_given named given
    exact ⟨_, reads_of_named named (.joined given)
      (ofRest_of_complete (shape_of_name_value absent) complete romGiven)⟩
  | separate named given undashed =>
    obtain ⟨-, waits, some, absent⟩ := ofName_of_given named given
    exact ⟨_, reads_of_named named (.separate given)
      (ofRest_of_waits (shape_of_name some absent) waits (shape_of_undashed undashed) romGiven)⟩

end Texts

section Lines

variable {requests : List Request} {groups : List (List String)}

/-- The texts of requests one behind the other, of which one at most asks for a program: every
argument asks for the same as its request. -/
theorem asks_ofRest_flatten (spelled : List.Forall₂ Request.Spelled requests groups)
    {romGiven : Bool}
    (single : (requests.map Request.name?).count none + romGiven.toNat ≤ 1) :
    List.Forall₂ Asks (ofRest romGiven none groups.flatten) requests := by
  induction spelled generalizing romGiven with
  | nil => exact .nil
  | @cons request texts requests groups first rest ih =>
    obtain ⟨argument, asks, -, split⟩ := exists_reads first romGiven
    rw [List.flatten_cons, split]
    rw [List.map_cons, List.count_cons] at single
    cases named : request.name? with
    | none =>
      rw [named, if_pos (beq_self_eq_true none)] at single
      refine .cons (asks (Or.inr ?_)) (ih ?_)
      · cases romGiven with
        | false => rfl
        | true => exact absurd single (by simp)
      · rw [Option.isNone_none, Bool.or_true, Bool.toNat_true]
        omega
    | some name =>
      rw [named, if_neg (by simp)] at single
      refine .cons (asks (Or.inl (by rw [named]; simp))) (ih ?_)
      rwa [Option.isNone_some, Bool.or_false]

/-- If they ask for several programs, an argument is rejected. -/
theorem rejected_mem_ofRest_flatten (spelled : List.Forall₂ Request.Spelled requests groups)
    {romGiven : Bool}
    (several : 1 < (requests.map Request.name?).count none + romGiven.toNat) :
    .rejected .unknownArgument ∈ ofRest romGiven none groups.flatten := by
  induction spelled generalizing romGiven with
  | nil => cases romGiven <;> exact absurd several (by decide)
  | @cons request texts requests groups first rest ih =>
    obtain ⟨argument, -, rejects, split⟩ := exists_reads first romGiven
    rw [List.flatten_cons, split]
    rw [List.map_cons, List.count_cons] at several
    cases named : request.name? with
    | none =>
      rw [named, if_pos (beq_self_eq_true none)] at several
      cases romGiven with
      | true => exact List.mem_cons.mpr (Or.inl (rejects named rfl).symm)
      | false => exact List.mem_cons_of_mem _ (ih several)
    | some name =>
      rw [named, if_neg (by simp)] at several
      refine List.mem_cons_of_mem _ (ih ?_)
      rwa [Option.isNone_some, Bool.or_false]

end Lines

end Argument

end ChipEight
