import Mathlib.Data.List.DropRight
import Mathlib.Tactic.Common

/-!
# Trimmed texts

A text is trimmed of the characters of a class at both ends. Python's `strip` takes the class of white
space, SQL's `BTRIM` the space alone.
-/

namespace PyText

abbrev Text := List Char

/-- `str.isspace` of a character. -/
def isSpace (c : Char) : Bool :=
  (9 ≤ c.toNat && c.toNat ≤ 13) || (28 ≤ c.toNat && c.toNat ≤ 32) || c.toNat == 0x85 ||
    c.toNat == 0xa0 || c.toNat == 0x1680 || (0x2000 ≤ c.toNat && c.toNat ≤ 0x200a) ||
    c.toNat == 0x2028 || c.toNat == 0x2029 || c.toNat == 0x202f || c.toNat == 0x205f ||
    c.toNat == 0x3000

def trim (inClass : Char → Bool) (text : Text) : Text :=
  (text.dropWhile inClass).rdropWhile inClass

/-- `str.strip`. -/
def strip (text : Text) : Text := trim isSpace text

/-- `BTRIM`. -/
def btrim (text : Text) : Text := trim (· == ' ') text

/-- `str.split` without a separator. -/
def words (text : Text) : List Text := (text.splitOnP isSpace).filter (· ≠ [])

/-- No character but white space. -/
def Blank (text : Text) : Prop := ∀ c ∈ text, isSpace c = true

instance (text : Text) : Decidable (Blank text) := List.decidableBAll _ _

variable {inClass : Char → Bool} {text : Text}

theorem trim_eq_nil_iff : trim inClass text = [] ↔ ∀ c ∈ text, inClass c = true := by
  unfold trim
  rw [List.rdropWhile_eq_nil_iff]
  constructor
  · intro hall
    have hnil : text.dropWhile inClass = [] := by
      cases hdrop : text.dropWhile inClass with
      | nil => rfl
      | cons c rest =>
          have hhead := List.head?_dropWhile_not inClass text
          rw [hdrop] at hhead hall
          simp [hall c List.mem_cons_self] at hhead
    exact List.dropWhile_eq_nil_iff.mp hnil
  · intro hall
    rw [List.dropWhile_eq_nil_iff.mpr hall]
    exact List.forall_mem_nil _

theorem strip_eq_nil_iff : strip text = [] ↔ Blank text := trim_eq_nil_iff

theorem trim_sublist : (trim inClass text).Sublist text :=
  (List.rdropWhile_prefix inClass _).sublist.trans (List.dropWhile_suffix inClass).sublist

theorem length_strip_le : (strip text).length ≤ text.length := trim_sublist.length_le

/-- Stripping keeps the length exactly if it keeps the text. -/
theorem length_strip_eq_iff : (strip text).length = text.length ↔ strip text = text :=
  ⟨fun hlength => trim_sublist.eq_of_length hlength, fun hsame => by rw [hsame]⟩

/-! ### Trimmed texts -/

/-- Both ends of the text are outside the class. -/
structure Trimmed (inClass : Char → Bool) (text : Text) : Prop where
  first : ∀ c ∈ text.head?, inClass c = false
  last : ∀ c ∈ text.getLast?, inClass c = false

theorem Trimmed.trim_eq (htrimmed : Trimmed inClass text) : trim inClass text = text := by
  have hfirst : text.dropWhile inClass = text := by
    cases text with
    | nil => rfl
    | cons c rest => exact List.dropWhile_cons_of_neg (by rw [htrimmed.first c rfl]; exact Bool.false_ne_true)
  rw [trim, hfirst, List.rdropWhile_eq_self_iff]
  intro hne
  rw [htrimmed.last _ (List.getLast?_eq_some_getLast hne)]
  exact Bool.false_ne_true

theorem trimmed_trim (inClass : Char → Bool) (text : Text) : Trimmed inClass (trim inClass text) where
  first := by
    intro c hc
    have hbegins : trim inClass text <+: text.dropWhile inClass := List.rdropWhile_prefix _ _
    obtain ⟨rest, heq⟩ := hbegins
    have hhead := List.head?_dropWhile_not inClass text
    rw [← heq, List.head?_append, hc] at hhead
    simpa using hhead
  last := by
    intro c hc
    have hne : trim inClass text ≠ [] := by
      intro hnil
      rw [hnil] at hc
      cases hc
    obtain rfl : (trim inClass text).getLast hne = c := by
      rw [List.getLast?_eq_some_getLast hne] at hc
      exact Option.some.inj hc
    exact Bool.eq_false_iff.mpr (List.rdropWhile_last_not inClass _ hne)

/-- A text that goes on keeps the trimmed text as a beginning. -/
theorem trim_prefix_append (inClass : Char → Bool) (text rest : Text) :
    trim inClass text <+: trim inClass (text ++ rest) := by
  unfold trim
  rw [List.dropWhile_append]
  split
  · next hempty =>
      rw [List.isEmpty_iff.mp hempty]
      exact List.nil_prefix
  · generalize text.dropWhile inClass = kept
    unfold List.rdropWhile
    rw [List.reverse_append, List.dropWhile_append]
    split
    · exact List.prefix_rfl
    · rw [List.reverse_append, List.reverse_reverse]
      exact (List.rdropWhile_prefix inClass kept).trans (List.prefix_append _ _)

/-- Trimmed texts that are not empty stay trimmed when they are joined. -/
theorem trimmed_intercalate {parts : List Text} (sep : Text)
    (hparts : ∀ part ∈ parts, part ≠ [] ∧ Trimmed inClass part) :
    Trimmed inClass (sep.intercalate parts) := by
  induction parts with
  | nil => constructor <;> simp
  | cons part rest ih =>
      rw [List.forall_mem_cons] at hparts
      obtain ⟨⟨hne, hfirst, hlast⟩, hrest⟩ := hparts
      cases rest with
      | nil =>
          rw [List.intercalate_singleton]
          exact ⟨hfirst, hlast⟩
      | cons next rest =>
          have hnext : sep.intercalate (next :: rest) ≠ [] := by
            have hnonempty := (hrest next List.mem_cons_self).1
            cases rest with
            | nil => simpa using hnonempty
            | cons => simp [List.intercalate_cons_cons, hnonempty]
          rw [List.intercalate_cons_cons, List.append_assoc]
          constructor
          · intro c hc
            rw [List.head?_append_of_ne_nil _ hne] at hc
            exact hfirst c hc
          · intro c hc
            rw [← List.append_assoc, List.getLast?_append_of_ne_nil _ hnext] at hc
            exact (ih hrest).last c hc

theorem not_blank_iff : ¬Blank text ↔ ∃ c ∈ text, isSpace c = false := by
  simp [Blank]

end PyText
