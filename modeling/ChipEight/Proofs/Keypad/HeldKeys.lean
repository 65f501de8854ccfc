import ChipEight.Keypad.Layout
import ChipEight.Proofs.Text.Numeral
import Mathlib.Logic.ExistsUnique
import Mathlib.Logic.Relation
/-!
# The keys that a text holds

A text holds the keys that lie where its characters lie on the keyboard. So only the set of these
keys can be seen in the keypad: neither the order of the characters nor how often or in which case
they stand in the text, and nothing of a character that stands for no key.

## Main definitions

- `Keypad.LiesAt` — the place of a key on the keyboard, read off the two pads row by row
- `Keypad.Names` — characters of which one stands for a key
- `Keypad.Edit` — the changes of a text that change no held key
- `Keypad.ofText?` — the keypad of a text by the numbers of its keys, as far as there are keys with
  these numbers

## Main statements

- `Keypad.ofChar?_eq_some_iff` — the table of the keys against the places on the keyboard
- `Keypad.Edit.names_iff`, `Keypad.names_iff_of_edits` — one change, and any number of them
- `Keypad.ofText?_eq_some` — all numbers are numbers of keys
- `Keypad.text_holds_keys` — which keys a text holds
-/

namespace ChipEight.Keypad

/-- The characters on the keyboard, row by row. -/
def characters : List Char :=
  "1234QWERASDFZXCV".toList

/-- The labels of the keys in the same places. -/
def labels : List Char :=
  "123C456D789EA0BF".toList

/-- The key lies where the character lies on the keyboard. -/
def LiesAt (key : Nibble) (c : Char) : Prop :=
  (c, Text.hexDigit key.val) ∈ characters.zip labels

instance (key : Nibble) (c : Char) : Decidable (LiesAt key c) :=
  inferInstanceAs (Decidable ((c, Text.hexDigit key.val) ∈ characters.zip labels))

/-- One of the characters, in upper case, lies where the key lies. -/
def Names (chars : List Char) (key : Nibble) : Prop :=
  ∃ c ∈ chars, LiesAt key c.toUpper

-- looks through the characters of the text, and not through all that there are
instance (chars : List Char) (key : Nibble) : Decidable (Names chars key) :=
  List.decidableBEx (fun c : Char => LiesAt key c.toUpper) chars

/-- A change of a text that changes no held key. Only the letters of ASCII have an upper case. -/
inductive Edit : List Char → List Char → Prop where
  | reorder {s t : List Char} (perm : s.Perm t) : Edit s t
  | duplicate {s : List Char} {c : Char} (member : c ∈ s) : Edit s (c :: s)
  | recase {s t : List Char} (same : s.map Char.toUpper = t.map Char.toUpper) : Edit s t
  | insert {s t : List Char} {c : Char}
      (unmapped : (∀ key, ¬ LiesAt key c.toUpper) ∨ 127 < c.toNat) : Edit (s ++ t) (s ++ c :: t)

/-- The number of the key at a character, as its label tells it. -/
def number? (c : Char) : Option Nat :=
  ((characters.zip labels).lookup c.toUpper).map Text.hexDigitValue

/-- The keypad with one key held in addition, if there is a key with this number. -/
def hold? (keypad : Keypad) (number : Nat) : Option Keypad :=
  if inside : number < 16 then some (keypad.set number true) else none

/-- The keypad with the key of every character held, where each number has to be that of a key. -/
def ofText? (text : String) : Option Keypad :=
  (text.toList.filterMap number?).foldlM hold? released

section Places

variable {key other : Nibble} {c : Char}

/-- The table of the keys says where they lie. -/
theorem liesAt_iff : LiesAt key c ↔ layout.get key = c := by
  have placed : ∀ place ∈ characters.zip labels, ∀ key : Nibble,
      Text.hexDigit key.val = place.2 → layout.get key = place.1 := by decide
  have known : ∀ key : Nibble,
      (layout.get key, Text.hexDigit key.val) ∈ characters.zip labels := by decide
  constructor
  · intro lies
    exact placed _ lies key rfl
  · rintro rfl
    exact known key

theorem layout_injective :
    ∀ {key other : Nibble}, layout.get key = layout.get other → key = other := by
  decide

theorem ofChar?_eq_some_iff : ofChar? c = some key ↔ LiesAt key c.toUpper := by
  rw [liesAt_iff, ofChar?]
  constructor
  · intro found
    simpa using List.find?_some found
  · intro lies
    have exists_first : ((List.finRange 16).find? fun key => layout.get key = c.toUpper).isSome :=
      List.find?_isSome.mpr ⟨key, List.mem_finRange key, decide_eq_true lies⟩
    obtain ⟨first, found⟩ := Option.isSome_iff_exists.mp exists_first
    have same : layout.get first = c.toUpper := by simpa using List.find?_some found
    rw [found, layout_injective (same.trans lies.symm)]

/-- Beyond ASCII nothing has an upper case, and no key lies there. -/
theorem not_liesAt_of_not_ascii (beyond : 127 < c.toNat) : ¬ LiesAt key c.toUpper := by
  have ascii : ∀ key : Nibble, (layout.get key).toNat ≤ 127 := by decide
  have same : c.toUpper = c := dif_neg fun ⟨_, le⟩ => by
    have le : c.toNat ≤ 122 := le
    omega
  rw [liesAt_iff, same]
  rintro rfl
  exact absurd (ascii key) (Nat.not_le.mpr beyond)

/-- The label of a key is its number. -/
theorem number?_eq (c : Char) : number? c = (ofChar? c).map Fin.val := by
  have known : ∀ key : Nibble, ((characters.zip labels).lookup (layout.get key)).map
      Text.hexDigitValue = some key.val := by decide
  cases found : ofChar? c with
  | some key =>
    have lies := liesAt_iff.mp (ofChar?_eq_some_iff.mp found)
    rw [number?, ← lies, known]
    rfl
  | none =>
    have unlabelled : ∀ place ∈ characters.zip labels, ∃ key, layout.get key = place.1 := by decide
    rw [number?, List.lookup_eq_none_iff.mpr]
    · rfl
    · intro place member
      obtain ⟨key, lies⟩ := unlabelled place member
      refine bne_iff_ne.mpr fun same => ?_
      rw [ofChar?_eq_some_iff.mpr (liesAt_iff.mpr (lies.trans same.symm))] at found
      cases found

end Places

section Holding

variable {s t : List Char} {key : Nibble}

theorem names_append : Names (s ++ t) key ↔ Names s key ∨ Names t key := by
  simp only [Names, List.mem_append, or_and_right, exists_or]

/-- One key after the other held: in the end these are held, and those that were before. -/
theorem get_foldl_setIfInBounds (keys : List Nibble) (keypad : Keypad) (key : Nibble) :
    (keys.foldl (fun keypad held => keypad.setIfInBounds held.val true) keypad).get key = true
      ↔ key ∈ keys ∨ keypad.get key = true := by
  induction keys generalizing keypad with
  | nil => simp
  | cons first rest ih =>
    have set : (keypad.setIfInBounds first.val true).get key
        = if first.val = key.val then true else keypad.get key :=
      Vector.getElem_setIfInBounds key.isLt
    rw [List.foldl_cons, ih, set]
    by_cases here : key = first
    · simp [here]
    · have apart : first.val ≠ key.val := fun same => here (Fin.ext same.symm)
      simp [here, apart]

theorem ofText_eq (text : String) :
    ofText text = (text.toList.filterMap ofChar?).foldl
      (fun keypad held => keypad.setIfInBounds held.val true) released := by
  rw [ofText, List.foldl_filterMap]
  congr 1
  funext keypad c
  cases ofChar? c <;> rfl

/-- A text holds the keys that its characters stand for. -/
theorem get_ofText_iff (text : String) (key : Nibble) :
    (ofText text).get key = true ↔ Names text.toList key := by
  have dark : released.get key = false := Vector.getElem_replicate key.isLt
  rw [ofText_eq, get_foldl_setIfInBounds, dark, or_iff_left Bool.false_ne_true,
    List.mem_filterMap]
  simp only [ofChar?_eq_some_iff, Names]

theorem ofText_eq_of_names_iff {s t : String}
    (same : ∀ key, Names s.toList key ↔ Names t.toList key) : ofText s = ofText t := by
  refine Vector.ext fun k lt => Bool.eq_iff_iff.mpr ?_
  exact (get_ofText_iff s ⟨k, lt⟩).trans ((same _).trans (get_ofText_iff t ⟨k, lt⟩).symm)

/-- What stands for no key may be put in anywhere. -/
theorem names_insert_iff {c : Char} (unmapped : ∀ key, ¬ LiesAt key c.toUpper) :
    Names (s ++ c :: t) key ↔ Names (s ++ t) key := by
  have split : Names (c :: t) key ↔ Names t key := by
    simp [Names, unmapped key]
  rw [names_append, split, names_append]

/-- A change leaves the keys that the characters stand for. -/
theorem Edit.names_iff (edit : Edit s t) (key : Nibble) : Names s key ↔ Names t key := by
  cases edit with
  | reorder perm => exact exists_congr fun c => and_congr_left' perm.mem_iff
  | duplicate member =>
    refine exists_congr fun c => and_congr_left' ?_
    rw [List.mem_cons]
    exact ⟨Or.inr, fun either => either.elim (fun same => same ▸ member) id⟩
  | recase same =>
    have mapped (chars : List Char) :
        Names chars key ↔ ∃ upper ∈ chars.map Char.toUpper, LiesAt key upper := by
      simp [Names]
    rw [mapped, mapped, same]
  | insert unmapped =>
    refine (names_insert_iff fun key => ?_).symm
    exact unmapped.elim (fun none => none key) not_liesAt_of_not_ascii

/-- So does any number of changes, each made or taken back. -/
theorem names_iff_of_edits (edits : Relation.EqvGen Edit s t) (key : Nibble) :
    Names s key ↔ Names t key := by
  induction edits with
  | rel s t edit => exact edit.names_iff key
  | refl s => exact Iff.rfl
  | symm s t _ ih => exact ih.symm
  | trans r s t _ _ first second => exact first.trans second

end Holding

/-- The characters of the keys that are held, as a text. -/
def spelling (keypad : Keypad) : String :=
  String.ofList (keypad.held.map layout.get)

theorem ofText_spelling (keypad : Keypad) : ofText keypad.spelling = keypad := by
  have upper : ∀ key : Nibble, (layout.get key).toUpper = layout.get key := by decide
  refine Vector.ext fun k lt => Bool.eq_iff_iff.mpr ((get_ofText_iff _ ⟨k, lt⟩).trans ?_)
  rw [spelling, String.toList_ofList]
  constructor
  · rintro ⟨c, member, lies⟩
    obtain ⟨key, held, rfl⟩ := List.mem_map.mp member
    rw [upper, liesAt_iff] at lies
    rw [layout_injective lies.symm] at held
    exact mem_held.mp held
  · intro held
    have member : (⟨k, lt⟩ : Nibble) ∈ keypad.held := mem_held.mpr held
    exact ⟨_, List.mem_map_of_mem member, by rw [upper, liesAt_iff]⟩

/-- Every number at a character is that of a key, so no character is refused. -/
theorem ofText?_eq_some (text : String) : ofText? text = some (ofText text) := by
  have numbers : text.toList.filterMap number? = (text.toList.filterMap ofChar?).map Fin.val := by
    rw [List.map_filterMap]
    congr 1
    funext c
    exact number?_eq c
  have held (keypad : Keypad) (key : Nibble) :
      hold? keypad key.val = some (keypad.setIfInBounds key.val true) := by
    rw [hold?, dif_pos key.isLt]
    refine congrArg some (Vector.ext fun k lt => ?_)
    rw [Vector.getElem_setIfInBounds, Vector.getElem_set]
  rw [ofText?, numbers, List.foldlM_map, ofText_eq]
  simp only [held]
  exact List.foldlM_pure

/-- A text holds exactly the keys that lie where its characters, in upper case, lie on the
keyboard; each key has one place there, and no two keys have the same. So a text put together from
two holds the keys of both, and texts that come from one another by reordering, by repeating
characters, by changing their case or by putting in what stands for no key, as nothing does beyond
ASCII, hold the same keys. Every keypad is that of some text. The numbers of the keys never leave
the keypad. -/
theorem text_holds_keys :
    (∀ (text : String) (key : Nibble), (ofText text).get key = true ↔ Names text.toList key) ∧
    (∀ key, ∃! c, LiesAt key c) ∧
    (∀ key other c, LiesAt key c → LiesAt other c → other = key) ∧
    (∀ (s t : String) (key : Nibble),
      (ofText (s ++ t)).get key = ((ofText s).get key || (ofText t).get key)) ∧
    (∀ s t : String, Relation.EqvGen Edit s.toList t.toList → ofText s = ofText t) ∧
    (∀ keypad : Keypad, ∃ text, ofText text = keypad) ∧
    ∀ text, ofText? text = some (ofText text) := by
  refine ⟨get_ofText_iff, fun key => ?_, fun key other c here there => ?_, fun s t key => ?_,
    fun s t edits => ofText_eq_of_names_iff fun key => names_iff_of_edits edits key,
    fun keypad => ⟨_, ofText_spelling keypad⟩, ofText?_eq_some⟩
  · exact ⟨_, liesAt_iff.mpr rfl, fun c lies => (liesAt_iff.mp lies).symm⟩
  · exact layout_injective ((liesAt_iff.mp there).trans (liesAt_iff.mp here).symm)
  · rw [Bool.eq_iff_iff, Bool.or_eq_true, get_ofText_iff, get_ofText_iff,
      get_ofText_iff, String.toList_append, names_append]

/-- A letter beyond ASCII, a question mark and a key named twice make no difference. -/
theorem text_holds_keys_beside_unmapped :
    ofText "QW" = ofText "wéq?Q" ∧ (ofText "wéq?Q").get 0x4 = true ∧
      (ofText "wéq?Q").get 0x5 = true ∧ (ofText "wéq?Q").get 0xF = false := by
  obtain ⟨holds, -, -, -, same, -, -⟩ := text_holds_keys
  have twice : Edit ['Q', 'W'] ['Q', 'Q', 'W'] := .duplicate (by decide)
  have turned : Edit ['Q', 'Q', 'W'] ['W', 'Q', 'Q'] := .reorder (by decide)
  have lowered : Edit ['W', 'Q', 'Q'] ['w', 'q', 'Q'] := .recase (by decide)
  have asked : Edit (['w', 'q'] ++ ['Q']) (['w', 'q'] ++ '?' :: ['Q']) :=
    .insert (.inl (by decide))
  have accented : Edit (['w'] ++ ['q', '?', 'Q']) (['w'] ++ 'é' :: ['q', '?', 'Q']) :=
    .insert (.inr (by decide))
  refine ⟨same _ _ ?_, (holds _ _).mpr ?_, (holds _ _).mpr ?_, ?_⟩
  · exact .trans _ _ _ (.rel _ _ twice) (.trans _ _ _ (.rel _ _ turned)
      (.trans _ _ _ (.rel _ _ lowered) (.trans _ _ _ (.rel _ _ asked) (.rel _ _ accented))))
  · decide
  · decide
  · rw [Bool.eq_false_iff, Ne, holds]
    decide

end ChipEight.Keypad
