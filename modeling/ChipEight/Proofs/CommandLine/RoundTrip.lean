import ChipEight.CommandLine.Reading
import ChipEight.Proofs.CommandLine.Request
/-!
# Command lines read back

A command line that asks for a program, and for anything else at most once, is answered with what
it asks for, in whatever order and spelling. One that asks for something twice is refused, whatever
else it says.

## Main definitions

- `Argument.isAbout` — the option that an argument is about
- `Draft.Holds` — the requests that are answered by what was read so far
- `Draft.has`, `Draft.mentions` — the options that were given so far
- `Draft.insert` — one more request answered
- `Draft.Fresh` — requests of which each is the first one of its name
- `Options.Answers` — options that are what a list of requests asks for

## Main statements

- `Draft.read_of_asks` — one argument
- `Draft.readAll_of_fresh`, `Draft.readAll_of_not_fresh` — any number of them
- `Draft.holds_foldl_insert` — what is answered in the end
- `Draft.countP_of_readAll` — how often an accepted line gives an option
- `Options.ofArguments_answers` — whole command lines
-/

namespace ChipEight

/-- The argument is about the field; without a field, it is the flag. -/
def Argument.isAbout : Argument → Option Field → Bool
  | .joined field _, part => part = some field
  | .separate field _, part => part = some field
  | .rom _, part => part = some .rom
  | .cosmac, part => part = none
  | .help, _ => false
  | .rejected _, _ => false

namespace Draft

/-- The draft has the answer to the request. -/
def Holds (draft : Draft) : Request → Prop
  | .rom path => draft.rom = some path
  | .cosmac => draft.cosmac = true
  | .seed n => draft.seed = some n
  | .frames n => draft.frames = some n
  | .instructionsPerFrame n => draft.instructionsPerFrame = some n
  | .keys chars => draft.keys = some chars

/-- The field has a value; without a field, the flag was given. -/
def has (draft : Draft) : Option Field → Bool
  | none => draft.cosmac
  | some .rom => draft.rom.isSome
  | some .seed => draft.seed.isSome
  | some .frames => draft.frames.isSome
  | some .instructionsPerFrame => draft.instructionsPerFrame.isSome
  | some .keys => draft.keys.isSome

/-- Something was asked for that has the same name. -/
def mentions (draft : Draft) : Request → Bool
  | .rom _ => draft.has (some .rom)
  | .cosmac => draft.has none
  | .seed _ => draft.has (some .seed)
  | .frames _ => draft.has (some .frames)
  | .instructionsPerFrame _ => draft.has (some .instructionsPerFrame)
  | .keys _ => draft.has (some .keys)

/-- The draft with the answer to one more request. -/
def insert (draft : Draft) : Request → Draft
  | .rom path => { draft with rom := some path }
  | .cosmac => { draft with cosmac := true }
  | .seed n => { draft with seed := some n }
  | .frames n => { draft with frames := some n }
  | .instructionsPerFrame n => { draft with instructionsPerFrame := some n }
  | .keys chars => { draft with keys := some chars }

section Insert

variable {draft : Draft} {request other : Request}

theorem not_holds_empty : ¬ Holds {} request := by
  cases request <;> rintro ⟨⟩

theorem mentions_empty : mentions {} request = false := by
  cases request <;> rfl

theorem mentions_of_holds (holds : draft.Holds other) (same : other.name? = request.name?) :
    draft.mentions request = true := by
  cases request <;> cases other <;> simp_all [Holds, mentions, has, Request.name?]

theorem mentions_insert : (draft.insert request).mentions other
    = (decide (request.name? = other.name?) || draft.mentions other) := by
  cases request <;> cases other <;> simp [insert, mentions, has, Request.name?]

theorem holds_insert : (draft.insert request).Holds other
    ↔ other = request ∨ draft.Holds other ∧ other.name? ≠ request.name? := by
  cases request <;> cases other <;> simp [insert, Holds, Request.name?] <;> exact eq_comm

end Insert

section Read

variable {draft : Draft} {request : Request} {argument : Argument}

theorem map_once_ok {α : Type} (current : Option α) (value : α) (change : Option α → Draft) :
    (once current (.ok value)).map change
      = if current.isSome then .error .repeated else .ok (change (some value)) := by
  cases current <;> rfl

theorem put_of_given {field : Field} {text : String} (given : request.Given field text) :
    draft.put field (some text)
      = if draft.mentions request then .error .repeated else .ok (draft.insert request) := by
  cases given with
  | seed denotes | frames denotes | instructionsPerFrame denotes =>
    simp only [put, number, Text.uint64?_of_denotes denotes]
    exact map_once_ok ..
  | keys chars => exact map_once_ok ..

/-- An argument answers its request, unless something of this name was asked for before. -/
theorem read_of_asks (asks : argument.Asks request) :
    draft.read argument
      = if draft.mentions request then .error .repeated else .ok (draft.insert request) := by
  cases asks with
  | rom nonempty =>
    simp only [read, put, romName, if_neg nonempty]
    exact map_once_ok ..
  | cosmac => rfl
  | joined given => exact put_of_given given
  | separate given => exact put_of_given given

end Read

section ReadAll

variable {draft : Draft} {requests : List Request} {arguments : List Argument}

theorem rejection?_of_asks {argument : Argument}
    (asks : List.Forall₂ Argument.Asks arguments requests) :
    rejection? argument arguments = none := by
  cases asks with
  | nil => cases argument <;> rfl
  | cons first rest => cases first <;> cases argument <;> rfl

theorem readAll_cons_of_asks {request : Request} {argument : Argument}
    (first : argument.Asks request) (rest : List.Forall₂ Argument.Asks arguments requests) :
    draft.readAll (argument :: arguments)
      = if draft.mentions request then .error .repeated
        else (draft.insert request).readAll arguments := by
  simp only [readAll, rejection?_of_asks rest, read_of_asks first]
  cases draft.mentions request <;> rfl

/-- The requests have names of their own, and none of them is in the draft. -/
structure Fresh (draft : Draft) (requests : List Request) : Prop where
  distinct : (requests.map Request.name?).Nodup
  absent : ∀ request ∈ requests, draft.mentions request = false

theorem fresh_cons {request : Request} : Fresh draft (request :: requests)
    ↔ draft.mentions request = false ∧ Fresh (draft.insert request) requests := by
  -- behind the insertion of the first request a name is taken if it was before or is the same
  have absent_iff : (∀ other ∈ requests, (draft.insert request).mentions other = false)
      ↔ request.name? ∉ requests.map Request.name? ∧
        ∀ other ∈ requests, draft.mentions other = false := by
    simp only [mentions_insert, Bool.or_eq_false_iff, decide_eq_false_iff_not, List.mem_map,
      not_exists, not_and, ← forall_and]
    simp only [eq_comm]
  constructor
  · rintro ⟨distinct, absent⟩
    obtain ⟨other, distinct⟩ := List.nodup_cons.mp distinct
    obtain ⟨first, absent⟩ := List.forall_mem_cons.mp absent
    exact ⟨first, distinct, absent_iff.mpr ⟨other, absent⟩⟩
  · rintro ⟨first, distinct, absent⟩
    obtain ⟨other, absent⟩ := absent_iff.mp absent
    exact ⟨List.nodup_cons.mpr ⟨other, distinct⟩, List.forall_mem_cons.mpr ⟨first, absent⟩⟩

/-- As long as nothing is asked for twice, every argument is taken. -/
theorem readAll_of_fresh (asks : List.Forall₂ Argument.Asks arguments requests)
    (fresh : Fresh draft requests) :
    draft.readAll arguments = .ok (requests.foldl insert draft) := by
  induction asks generalizing draft with
  | nil => rfl
  | cons first rest ih =>
    obtain ⟨absent, fresh⟩ := fresh_cons.mp fresh
    rw [readAll_cons_of_asks first rest, absent]
    exact ih fresh

/-- The first request whose name was there before is the fault of the line. -/
theorem readAll_of_not_fresh (asks : List.Forall₂ Argument.Asks arguments requests)
    (stale : ¬ Fresh draft requests) : draft.readAll arguments = .error .repeated := by
  induction asks generalizing draft with
  | nil => exact absurd ⟨List.nodup_nil, by simp⟩ stale
  | @cons argument request _ _ first rest ih =>
    rw [readAll_cons_of_asks first rest]
    cases absent : draft.mentions request with
    | true => rfl
    | false => exact ih fun fresh => stale (fresh_cons.mpr ⟨absent, fresh⟩)

/-- No request takes the place of another one, so in the end all of them are answered. -/
theorem holds_foldl_insert {request : Request} (fresh : Fresh draft requests) :
    (requests.foldl insert draft).Holds request ↔ request ∈ requests ∨ draft.Holds request := by
  induction requests generalizing draft with
  | nil => simp
  | cons first rest ih =>
    obtain ⟨absent, fresh⟩ := fresh_cons.mp fresh
    have other (holds : draft.Holds request) : request.name? ≠ first.name? := fun same => by
      rw [mentions_of_holds holds same] at absent
      cases absent
    rw [List.foldl_cons, ih fresh, holds_insert, List.mem_cons]
    tauto

end ReadAll

section Once

variable {draft next : Draft} {arguments : List Argument}

theorem eq_of_map_once {α : Type} {current : Option α} {value : Except UsageError α}
    {change : Option α → Draft} (done : (once current value).map change = .ok next) :
    current = none ∧ ∃ answer, change (some answer) = next := by
  cases current with
  | some _ => cases done
  | none =>
    cases value with
    | error _ => cases done
    | ok answer => exact ⟨rfl, answer, Except.ok.inj done⟩

/-- A value that is taken is the first one of its field. -/
theorem has_put {field : Field} {value : Option String} (done : draft.put field value = .ok next)
    (part : Option Field) :
    (next.has part).toNat = (draft.has part).toNat + (decide (part = some field)).toNat := by
  cases value with
  | none => cases done
  | some value =>
    cases field with
    | rom | seed | frames | instructionsPerFrame | keys =>
      -- the field had no value before, and nothing is told of the other ones
      obtain ⟨missing, answer, rfl⟩ := eq_of_map_once done
      rcases part with _ | _ | _ | _ | _ | _ <;> simp [has, missing]

theorem has_chooseCosmac (done : draft.chooseCosmac = .ok next) (part : Option Field) :
    (next.has part).toNat = (draft.has part).toNat + (decide (part = none)).toNat := by
  rw [chooseCosmac] at done
  split at done
  · cases done
  · next absent =>
    cases done
    rcases part with _ | _ | _ | _ | _ | _ <;> simp [has, absent]

theorem has_read {argument : Argument} (done : draft.read argument = .ok next)
    (part : Option Field) :
    (next.has part).toNat = (draft.has part).toNat + (argument.isAbout part).toNat := by
  cases argument <;> rw [read] at done
  case help => cases done
  case rejected => cases done
  case cosmac => exact has_chooseCosmac done part
  case joined => exact has_put done part
  case separate => exact has_put done part
  case rom => exact has_put done part

theorem readAll_cons_eq_ok {argument : Argument}
    (done : draft.readAll (argument :: arguments) = .ok next) :
    ∃ after, draft.read argument = .ok after ∧ after.readAll arguments = .ok next := by
  rw [readAll] at done
  split at done
  · cases done
  · cases first : draft.read argument with
    | error error =>
      rw [first] at done
      cases done
    | ok after =>
      rw [first] at done
      exact ⟨after, rfl, done⟩

/-- An accepted line gives its answers once each, and none that was there before. -/
theorem countP_of_readAll (done : draft.readAll arguments = .ok next) (part : Option Field) :
    arguments.countP (·.isAbout part) + (draft.has part).toNat = (next.has part).toNat := by
  induction arguments generalizing draft with
  | nil =>
    cases done
    exact Nat.zero_add _
  | cons argument rest ih =>
    obtain ⟨after, first, done⟩ := readAll_cons_eq_ok done
    have counted : (if argument.isAbout part = true then 1 else 0)
        = (argument.isAbout part).toNat := by
      cases argument.isAbout part <;> rfl
    rw [List.countP_cons, counted, ← ih done, has_read first part]
    omega

theorem rejected_not_mem_of_readAll (done : draft.readAll arguments = .ok next)
    (error : UsageError) : .rejected error ∉ arguments := by
  induction arguments generalizing draft with
  | nil => exact List.not_mem_nil
  | cons argument rest ih =>
    obtain ⟨after, first, done⟩ := readAll_cons_eq_ok done
    rw [List.mem_cons, not_or]
    refine ⟨?_, ih done⟩
    rintro rfl
    cases first

end Once

end Draft

namespace Options

/-- The options are what the requests ask for, and as they are without a request otherwise. -/
structure Answers (options : Options) (requests : List Request) : Prop where
  rom : ∀ path, .rom path ∈ requests ↔ options.rom = path
  cosmac : .cosmac ∈ requests ↔ options.cosmac = true
  seed : ∀ n, .seed n ∈ requests ↔ options.seed = some n
  frames : ∀ n, .frames n ∈ requests ↔ options.frames = some n
  speed : ∀ n, .instructionsPerFrame n ∈ requests → options.instructionsPerFrame = n
  defaultSpeed : (∀ n, .instructionsPerFrame n ∉ requests) → options.instructionsPerFrame = 8
  keys : ∀ chars, .keys chars ∈ requests → options.keys = chars
  noKeys : (∀ chars, .keys chars ∉ requests) → options.keys = ""

variable {requests : List Request} {groups : List (List String)}

/-- What was given decides, and the default where nothing was given. -/
theorem getD_of_iff {α : Type} {given : Option α} {asked : α → Prop}
    (answered : ∀ value, given = some value ↔ asked value) (default : α) :
    (∀ value, asked value → given.getD default = value) ∧
      ((∀ value, ¬ asked value) → given.getD default = default) := by
  constructor
  · intro value ask
    rw [(answered value).mpr ask, Option.getD_some]
  · intro unasked
    cases given with
    | none => rfl
    | some value => exact absurd ((answered value).mp rfl) (unasked value)

/-- A draft that holds exactly the requests, one of them for a program, is complete. -/
theorem exists_of_holds {draft : Draft} {path : String}
    (holds : ∀ request, draft.Holds request ↔ request ∈ requests) (rom : .rom path ∈ requests) :
    ∃ options, draft.options = .ok options ∧ options.Answers requests := by
  have given : draft.rom = some path := (holds (.rom path)).mpr rom
  obtain ⟨speed, defaultSpeed⟩ := getD_of_iff (fun n => holds (.instructionsPerFrame n)) 8
  obtain ⟨keys, noKeys⟩ := getD_of_iff (fun chars => holds (.keys chars)) ""
  refine ⟨_, by rw [Draft.options, given], ?_⟩
  exact {
    rom := fun other => by rw [← holds, Draft.Holds, given, Option.some_inj]
    cosmac := (holds .cosmac).symm
    seed := fun n => (holds (.seed n)).symm
    frames := fun n => (holds (.frames n)).symm
    speed := speed
    defaultSpeed := defaultSpeed
    keys := keys
    noKeys := noKeys }

/-- The flag decides between the two readings of the instructions. -/
theorem dialect_settings (options : Options) :
    (options.settings.dialect = .cosmacVip ↔ options.cosmac = true) ∧
      (options.settings.dialect = .modern ↔ options.cosmac ≠ true) := by
  have dialect : options.settings.dialect = if options.cosmac then .cosmacVip else .modern := rfl
  rw [dialect]
  cases options.cosmac <;> decide

section Lines

variable (spelled : List.Forall₂ Request.Spelled requests groups)

include spelled

theorem ofArguments_of_distinct {path : String} (distinct : (requests.map Request.name?).Nodup)
    (rom : .rom path ∈ requests) :
    ∃ options, ofArguments groups.flatten = .ok options ∧ options.Answers requests := by
  have single : (requests.map Request.name?).count none ≤ 1 := List.nodup_iff_count.mp distinct none
  have asks : List.Forall₂ Argument.Asks (Argument.ofTexts groups.flatten) requests :=
    Argument.asks_ofRest_flatten spelled single
  have fresh : Draft.Fresh {} requests := ⟨distinct, fun _ _ => Draft.mentions_empty⟩
  have holds (request : Request) :
      (requests.foldl Draft.insert {}).Holds request ↔ request ∈ requests := by
    rw [Draft.holds_foldl_insert fresh, or_iff_left Draft.not_holds_empty]
  obtain ⟨options, done, answers⟩ := exists_of_holds holds rom
  refine ⟨options, ?_, answers⟩
  rw [ofArguments, Draft.readAll_of_fresh asks fresh]
  exact done

theorem ofArguments_of_repeated (repeated : ¬ (requests.map Request.name?).Nodup)
    (single : (requests.map Request.name?).count none ≤ 1) :
    ofArguments groups.flatten = .error .repeated := by
  have asks : List.Forall₂ Argument.Asks (Argument.ofTexts groups.flatten) requests :=
    Argument.asks_ofRest_flatten spelled single
  rw [ofArguments, Draft.readAll_of_not_fresh asks fun fresh => repeated fresh.distinct]

/-- A second program is an argument too many, wherever it stands. -/
theorem exists_error_of_several (several : 1 < (requests.map Request.name?).count none) :
    ∃ error, ofArguments groups.flatten = .error error := by
  have rejected : .rejected .unknownArgument ∈ Argument.ofTexts groups.flatten :=
    Argument.rejected_mem_ofRest_flatten spelled several
  rw [ofArguments]
  cases read : Draft.readAll {} (Argument.ofTexts groups.flatten) with
  | error error => exact ⟨error, rfl⟩
  | ok draft => exact absurd rejected (Draft.rejected_not_mem_of_readAll read _)

end Lines

theorem countP_of_ofArguments {texts : List String} {options : Options}
    (done : ofArguments texts = .ok options) (part : Option Field) :
    (Argument.ofTexts texts).countP (·.isAbout part) ≤ 1 := by
  rw [ofArguments] at done
  cases read : Draft.readAll {} (Argument.ofTexts texts) with
  | error error =>
    rw [read] at done
    cases done
  | ok draft =>
    have counted := Draft.countP_of_readAll read part
    have bound := (draft.has part).toNat_le
    omega

/-- A command line that names a program and every option at most once is answered with what it
asks for, in any order and spelling, and the machine is set up accordingly. If something is asked
for twice, the line is refused. No line that is accepted has two arguments about one option,
whatever else it says. -/
theorem ofArguments_answers :
    (∀ (requests : List Request) (groups : List (List String)) (path : String),
      List.Forall₂ Request.Spelled requests groups → (requests.map Request.name?).Nodup →
      .rom path ∈ requests →
        ∃ options, ofArguments groups.flatten = .ok options ∧ options.Answers requests ∧
          (options.settings.dialect = .cosmacVip ↔ .cosmac ∈ requests) ∧
          (options.settings.dialect = .modern ↔ .cosmac ∉ requests) ∧
          options.settings.instructionsPerFrame = options.instructionsPerFrame.toNat ∧
          options.settings.seed = options.seed) ∧
    (∀ (requests : List Request) (groups : List (List String)),
      List.Forall₂ Request.Spelled requests groups → ¬ (requests.map Request.name?).Nodup →
        ∃ error, ofArguments groups.flatten = .error error ∧
          ((requests.map Request.name?).count none ≤ 1 → error = .repeated)) ∧
    (∀ (texts : List String) (options : Options), ofArguments texts = .ok options →
      ∀ part, (Argument.ofTexts texts).countP (·.isAbout part) ≤ 1) := by
  refine ⟨fun requests groups path spelled distinct rom => ?_,
    fun requests groups spelled repeated => ?_, fun texts options => countP_of_ofArguments⟩
  · obtain ⟨options, done, answers⟩ := ofArguments_of_distinct spelled distinct rom
    obtain ⟨vip, modern⟩ := dialect_settings options
    refine ⟨options, done, answers, ?_, ?_, rfl, rfl⟩
    · rw [vip, answers.cosmac]
    · rw [modern, answers.cosmac]
  · by_cases single : (requests.map Request.name?).count none ≤ 1
    · exact ⟨_, ofArguments_of_repeated spelled repeated single, fun _ => rfl⟩
    · obtain ⟨error, refused⟩ := exists_error_of_several spelled (Nat.lt_of_not_le single)
      exact ⟨error, refused, fun one => absurd one single⟩

/-- The largest seed and a numeral with a plus sign and zeros, with the program between the
options, and the same line with one option more. -/
theorem ofArguments_answers_largest_seed :
    (∃ options, ofArguments ["--frames=+007", "pong.ch8", "--keys", "qw",
        "--seed", "18446744073709551615", "--cosmac"] = .ok options ∧
      options.rom = "pong.ch8" ∧ options.seed = some 18446744073709551615 ∧
      options.frames = some 7 ∧ options.keys = "qw" ∧ options.instructionsPerFrame = 8 ∧
      options.settings.dialect = .cosmacVip) ∧
    ofArguments ["--frames=+007", "pong.ch8", "--keys", "qw",
        "--seed", "18446744073709551615", "--cosmac", "--keys="] = .error .repeated := by
  have seven : Text.Denotes "+007" (7 : UInt64).toNat := ⟨3, Or.inr (by decide)⟩
  have frames : Request.Spelled (.frames 7) ["--frames=+007"] :=
    @Request.Spelled.joined _ "frames" _ _ rfl (.frames seven)
  have rom : Request.Spelled (.rom "pong.ch8") ["pong.ch8"] := .rom (by decide) (by decide)
  have keys : Request.Spelled (.keys "qw") ["--keys", "qw"] := .separate rfl (.keys _) (by decide)
  have seed : Request.Spelled (.seed 18446744073709551615) ["--seed", "18446744073709551615"] :=
    .separate rfl (.seed ⟨0, Or.inl (by decide)⟩) (by decide)
  have noKeys : Request.Spelled (.keys "") ["--keys="] :=
    @Request.Spelled.joined _ "keys" _ _ rfl (.keys "")
  obtain ⟨accepted, refused, -⟩ := ofArguments_answers
  constructor
  · obtain ⟨options, done, answers, vip, -⟩ := accepted _ _ "pong.ch8"
      (.cons frames (.cons rom (.cons keys (.cons seed (.cons .cosmac .nil))))) (by decide)
      (by decide)
    exact ⟨options, done, (answers.rom _).mp (by decide), (answers.seed _).mp (by decide),
      (answers.frames _).mp (by decide), answers.keys _ (by decide),
      answers.defaultSpeed (by simp), vip.mpr (by decide)⟩
  · obtain ⟨error, done, reason⟩ := refused _ _
      (.cons frames (.cons rom (.cons keys (.cons seed (.cons .cosmac (.cons noKeys .nil))))))
      (by decide)
    rw [← reason (by decide)]
    exact done

end Options

end ChipEight
