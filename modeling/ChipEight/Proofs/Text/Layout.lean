import ChipEight.Text.Numeral
import Mathlib.Algebra.Ring.Nat
/-!
# Layout of texts

How a text falls into parts: into its columns, into its lines, and into parts that were put
together with a separator between them.

## Main definitions

- `field` — what stands in some columns of a text
- `lines` — the lines of a text

## Main statements

- `field_append_left`, `field_append_right` — the columns of a text put together from two
- `append_inj_of_length`, `append_mark_inj` — a first part of known width, or with a mark behind it
- `field_intercalate`, `width_intercalate` — parts of one width, with a separator between them
- `filter_intercalate` — some characters left out of parts and separators
- `lines_intercalate` — lines that were put together
-/

namespace ChipEight.Text

/-- What stands in the columns of a text from `start` on. -/
def field (text : String) (start width : Nat) : String :=
  String.ofList ((text.toList.drop start).take width)

/-- The lines of a text, which is cut at its line ends. -/
def lines (text : String) : List String :=
  (text.toList.splitOn '\n').map String.ofList

section Parts

variable {α : Type} {c : α} {sep : List α} {parts : List (List α)} {width k : Nat}

/-- What stands in front of the first separator, and what stands behind it. -/
theorem append_cons_inj {a b s t : List α} (ha : c ∉ a) (hb : c ∉ b) :
    a ++ c :: s = b ++ c :: t ↔ a = b ∧ s = t := by
  constructor
  · intro same
    induction a generalizing b with
    | nil =>
      cases b with
      | nil => exact ⟨rfl, (List.cons.inj same).2⟩
      | cons e b => exact absurd (List.cons.inj same).1 (List.ne_of_not_mem_cons hb)
    | cons d a ih =>
      cases b with
      | nil => exact absurd (List.cons.inj same).1.symm (List.ne_of_not_mem_cons ha)
      | cons e b =>
        obtain ⟨first, others⟩ := List.cons.inj same
        obtain ⟨before, behind⟩ := ih (List.not_mem_of_not_mem_cons ha)
          (List.not_mem_of_not_mem_cons hb) others
        exact ⟨by rw [first, before], behind⟩
  · rintro ⟨rfl, rfl⟩
    rfl

theorem filter_intercalate (p : α → Bool) (sep : List α) (parts : List (List α)) :
    (sep.intercalate parts).filter p
      = (sep.filter p).intercalate (parts.map fun part => part.filter p) := by
  induction parts with
  | nil => rfl
  | cons first rest ih =>
    cases rest with
    | nil => rw [List.intercalate_singleton]; exact List.intercalate_singleton.symm
    | cons second rest =>
      rw [List.intercalate_cons_cons, List.filter_append, List.filter_append, ih]
      exact List.intercalate_cons_cons.symm

theorem nil_intercalate (parts : List (List α)) : [].intercalate parts = parts.flatten := by
  induction parts with
  | nil => rfl
  | cons first rest ih =>
    cases rest with
    | nil => rw [List.intercalate_singleton, List.flatten_singleton]
    | cons second rest =>
      rw [List.intercalate_cons_cons, ih, List.append_nil]
      rfl

theorem mem_intercalate (member : c ∈ sep.intercalate parts) :
    c ∈ sep ∨ ∃ part ∈ parts, c ∈ part := by
  induction parts with
  | nil => cases member
  | cons first rest ih =>
    cases rest with
    | nil =>
      rw [List.intercalate_singleton] at member
      exact .inr ⟨first, List.mem_cons_self, member⟩
    | cons second rest =>
      rw [List.intercalate_cons_cons, List.mem_append, List.mem_append] at member
      rcases member with (here | between) | behind
      · exact .inr ⟨first, List.mem_cons_self, here⟩
      · exact .inl between
      · exact (ih behind).imp_right fun ⟨part, among, here⟩ =>
          ⟨part, List.mem_cons_of_mem _ among, here⟩

/-- Parts of one width begin at the multiples of the width of a part and its separator. -/
theorem drop_intercalate (uniform : ∀ part ∈ parts, part.length = width) (lt : k < parts.length)
    (rest : List α) :
    (sep.intercalate parts ++ rest).drop (k * (width + sep.length))
      = sep.intercalate (parts.drop k) ++ rest := by
  induction k generalizing parts with
  | zero => rw [Nat.zero_mul, List.drop_zero, List.drop_zero]
  | succ k ih =>
    match parts, lt with
    | first :: second :: others, lt =>
      have first_length := uniform first List.mem_cons_self
      have shift : (k + 1) * (width + sep.length)
          = (first ++ sep).length + k * (width + sep.length) := by
        rw [List.length_append, first_length, Nat.succ_mul, Nat.add_comm]
      rw [List.intercalate_cons_cons, shift, List.append_assoc, ← List.drop_drop, List.drop_left,
        List.drop_succ_cons]
      exact ih (fun part member => uniform part (List.mem_cons_of_mem _ member))
        (Nat.lt_of_succ_lt_succ lt)

theorem take_drop_intercalate (uniform : ∀ part ∈ parts, part.length = width)
    (lt : k < parts.length) (rest : List α) :
    ((sep.intercalate parts ++ rest).drop (k * (width + sep.length))).take width = parts[k] := by
  have leads (first : List α) (others : List (List α)) :
      ∃ behind, sep.intercalate (first :: others) = first ++ behind := by
    cases others with
    | nil => exact ⟨[], by rw [List.intercalate_singleton, List.append_nil]⟩
    | cons second others => exact ⟨_, by rw [List.intercalate_cons_cons, List.append_assoc]⟩
  obtain ⟨behind, split⟩ := leads parts[k] (parts.drop (k + 1))
  rw [drop_intercalate uniform lt, List.drop_eq_getElem_cons lt, split, List.append_assoc,
    ← uniform parts[k] (List.getElem_mem lt), List.take_left]

/-- Behind every part but the last one the separator stands. -/
theorem take_drop_separator (uniform : ∀ part ∈ parts, part.length = width)
    (lt : k + 1 < parts.length) (rest : List α) :
    ((sep.intercalate parts ++ rest).drop (k * (width + sep.length) + width)).take sep.length
      = sep := by
  have here : k < parts.length := Nat.lt_of_succ_lt lt
  rw [← List.drop_drop, drop_intercalate uniform here, List.drop_eq_getElem_cons here,
    List.drop_eq_getElem_cons lt, List.intercalate_cons_cons, List.append_assoc, List.append_assoc,
    ← uniform parts[k] (List.getElem_mem here), List.drop_left, List.take_left]

/-- Every part but the last one has a separator behind it. -/
theorem length_intercalate (some : parts ≠ []) :
    (sep.intercalate parts).length + sep.length
      = (parts.map fun part => part.length + sep.length).sum := by
  induction parts with
  | nil => exact absurd rfl some
  | cons first rest ih =>
    rw [List.map_cons, List.sum_cons]
    cases rest with
    | nil => rw [List.intercalate_singleton, List.map_nil, List.sum_nil, Nat.add_zero]
    | cons second rest =>
      rw [List.intercalate_cons_cons, List.length_append, List.length_append,
        ← ih (List.cons_ne_nil _ _)]
      omega

theorem length_intercalate_of_uniform (uniform : ∀ part ∈ parts, part.length = width)
    (some : parts ≠ []) :
    (sep.intercalate parts).length + sep.length = parts.length * (width + sep.length) := by
  have widths : (parts.map fun part => part.length + sep.length)
      = List.replicate parts.length (width + sep.length) := by
    rw [← List.map_const']
    exact List.map_congr_left fun part member => by rw [uniform part member]
  rw [length_intercalate some, widths, List.sum_replicate_nat]

end Parts

section Field

variable {first rest : String} {start width : Nat}

theorem field_append_left (front : start = 0) (length : first.length = width) :
    field (first ++ rest) start width = first := by
  rw [field, String.toList_append, front, List.drop_zero, ← length, ← String.length_toList,
    List.take_left, String.ofList_toList]

theorem field_append_right (le : first.length ≤ start) :
    field (first ++ rest) start width = field rest (start - first.length) width := by
  rw [← String.length_toList] at le ⊢
  rw [field, String.toList_append, List.drop_append, List.drop_of_length_le le, List.nil_append,
    field]

/-- Of texts whose first parts have one length, these and the others can be told apart. -/
theorem append_inj_of_length {a b s t : String} (same_length : a.length = b.length) :
    a ++ s = b ++ t ↔ a = b ∧ s = t := by
  constructor
  · intro same
    have same := congrArg String.toList same
    rw [String.toList_append, String.toList_append] at same
    have parts := List.append_inj same (by
      rw [String.length_toList, String.length_toList, same_length])
    exact ⟨String.toList_inj.mp parts.1, String.toList_inj.mp parts.2⟩
  · rintro ⟨rfl, rfl⟩
    rfl

/-- Texts in which a mark stands behind parts without its first character. -/
theorem append_mark_inj {a b s t mark : String} {c : Char} (leads : mark.toList.head? = some c)
    (ha : c ∉ a.toList) (hb : c ∉ b.toList) :
    a ++ (mark ++ s) = b ++ (mark ++ t) ↔ a = b ∧ s = t := by
  obtain ⟨others, split⟩ : ∃ others, mark.toList = c :: others :=
    List.head?_eq_some_iff.mp leads
  rw [← String.toList_inj]
  simp only [String.toList_append, split, List.cons_append]
  rw [append_cons_inj ha hb, List.append_cancel_left_eq, String.toList_inj, String.toList_inj]

variable {sep : String} {parts : List String} {k : Nat}

theorem join_eq_intercalate (parts : List String) :
    String.join parts = String.intercalate "" parts := by
  rw [← String.toList_inj, String.toList_join, String.toList_intercalate]
  exact (nil_intercalate _).symm

theorem uniform_toList (uniform : ∀ part ∈ parts, part.length = width) :
    ∀ part ∈ parts.map String.toList, part.length = width := by
  intro part member
  obtain ⟨text, given, rfl⟩ := List.mem_map.mp member
  rw [String.length_toList, uniform text given]

theorem field_intercalate (uniform : ∀ part ∈ parts, part.length = width) (lt : k < parts.length) :
    field (String.intercalate sep parts ++ rest) (k * (width + sep.length)) width = parts[k] := by
  have here := @take_drop_intercalate _ sep.toList _ _ k (uniform_toList uniform)
    (by rw [List.length_map]; exact lt) rest.toList
  rw [String.length_toList, List.getElem_map] at here
  rw [field, String.toList_append, String.toList_intercalate, here, String.ofList_toList]

theorem field_separator (uniform : ∀ part ∈ parts, part.length = width)
    (lt : k + 1 < parts.length) :
    field (String.intercalate sep parts ++ rest) (k * (width + sep.length) + width) sep.length
      = sep := by
  have here := @take_drop_separator _ sep.toList _ _ k (uniform_toList uniform)
    (by rw [List.length_map]; exact lt) rest.toList
  rw [String.length_toList] at here
  rw [field, String.toList_append, String.toList_intercalate, here, String.ofList_toList]

theorem width_intercalate (uniform : ∀ part ∈ parts, part.length = width)
    (some : parts ≠ []) :
    (String.intercalate sep parts).length + sep.length = parts.length * (width + sep.length) := by
  have whole := @length_intercalate_of_uniform _ sep.toList _ _ (uniform_toList uniform)
    (by simpa using some)
  rwa [← String.toList_intercalate, String.length_toList, String.length_toList, List.length_map]
    at whole

end Field

/-- Lines that were put together are found again. -/
theorem lines_intercalate {parts : List String} (whole : ∀ line ∈ parts, '\n' ∉ line.toList)
    (some : parts ≠ []) : lines (String.intercalate "\n" parts) = parts := by
  have cut : (String.intercalate "\n" parts).toList.splitOn '\n' = parts.map String.toList := by
    rw [String.toList_intercalate]
    refine List.splitOn_intercalate '\n' ?_ ?_
    · simpa using whole
    · simpa using some
  rw [lines, cut, List.map_map]
  simp

end ChipEight.Text
