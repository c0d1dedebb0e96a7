import Mathlib.Data.List.Basic
import Mathlib.Tactic.Common

/-!
# The lines of a text

A text is cut behind every line break, and the breaks stay with their lines. A carriage return and the
line feed behind it are one break.
-/

namespace Lines

variable (isBreak : Char → Bool)

/-- A line ends between a character and what is next. -/
def endsBefore (c : Char) (next : Option Char) : Bool :=
  isBreak c && !(c == '\r' && next == some '\n')

def split : List Char → List (List Char)
  | [] => []
  | c :: rest =>
      if endsBefore isBreak c rest.head? then [c] :: split rest
      else
        match split rest with
        | [] => [[c]]
        | line :: lines => (c :: line) :: lines

/-- No line goes on from one text into the next. -/
def Seam (text next : List Char) : Prop :=
  next ≠ [] → ∀ c ∈ text.getLast?, endsBefore isBreak c next.head? = true

/-- The last line of a text has its break. -/
def Ended (text : List Char) : Prop := ∀ c ∈ text.getLast?, isBreak c = true

instance (text : List Char) : Decidable (Ended isBreak text) :=
  decidable_of_iff (text.getLast?.all isBreak = true) (by simp [Ended, Option.all_eq_true])

variable {isBreak}

theorem split_cons_of_ends {c : Char} {rest : List Char}
    (hends : endsBefore isBreak c rest.head? = true) :
    split isBreak (c :: rest) = [c] :: split isBreak rest := by
  rw [split, if_pos hends]

theorem split_cons_of_not_ends {c : Char} {rest : List Char}
    (hends : endsBefore isBreak c rest.head? = false) :
    split isBreak (c :: rest) =
      (c :: (split isBreak rest).headD []) :: (split isBreak rest).tail := by
  rw [split, if_neg (by simp [hends])]
  cases split isBreak rest <;> rfl

variable (isBreak) in
theorem flatten_split (text : List Char) : (split isBreak text).flatten = text := by
  induction text with
  | nil => rfl
  | cons c rest ih =>
      cases hends : endsBefore isBreak c rest.head? with
      | true => rw [split_cons_of_ends hends, List.flatten_cons, ih, List.singleton_append]
      | false =>
          rw [split_cons_of_not_ends hends]
          cases hrest : split isBreak rest with
          | nil => rw [← ih, hrest]; rfl
          | cons line lines => rw [← ih, hrest]; rfl

theorem split_eq_nil_iff {text : List Char} : split isBreak text = [] ↔ text = [] := by
  constructor
  · intro hnil
    rw [← flatten_split isBreak text, hnil, List.flatten_nil]
  · rintro rfl
    rfl

theorem ne_nil_of_mem_split {text line : List Char} (hline : line ∈ split isBreak text) :
    line ≠ [] := by
  induction text generalizing line with
  | nil => cases hline
  | cons c rest ih =>
      cases hends : endsBefore isBreak c rest.head? with
      | true =>
          rw [split_cons_of_ends hends, List.mem_cons] at hline
          obtain rfl | hrest := hline
          · exact List.cons_ne_nil _ _
          · exact ih hrest
      | false =>
          rw [split_cons_of_not_ends hends, List.mem_cons] at hline
          obtain rfl | hrest := hline
          · exact List.cons_ne_nil _ _
          · exact ih (List.mem_of_mem_tail hrest)

theorem seam_cons {c : Char} {text next : List Char} (htext : text ≠ []) :
    Seam isBreak (c :: text) next ↔ Seam isBreak text next := by
  obtain ⟨d, text, rfl⟩ := List.exists_cons_of_ne_nil htext
  rw [Seam, Seam, List.getLast?_cons_cons]

/-- Texts are cut apart at a seam. -/
theorem split_append {text next : List Char} (hseam : Seam isBreak text next) :
    split isBreak (text ++ next) = split isBreak text ++ split isBreak next := by
  by_cases hnext : next = []
  · rw [hnext, List.append_nil, split, List.append_nil]
  induction text with
  | nil => rfl
  | cons c rest ih =>
      cases rest with
      | nil =>
          have hends : endsBefore isBreak c next.head? = true := hseam hnext c rfl
          rw [List.singleton_append, split_cons_of_ends hends]
          cases halone : endsBefore isBreak c ([] : List Char).head? with
          | true => rw [split_cons_of_ends halone]; rfl
          | false => rw [split_cons_of_not_ends halone]; rfl
      | cons d text =>
          have htail := ih ((seam_cons (List.cons_ne_nil d text)).mp hseam)
          have hhead : (d :: text ++ next).head? = (d :: text).head? := rfl
          rw [List.cons_append]
          cases hends : endsBefore isBreak c (d :: text).head? with
          | true =>
              rw [split_cons_of_ends (hhead ▸ hends), split_cons_of_ends hends, htail]
              rfl
          | false =>
              rw [split_cons_of_not_ends (hhead ▸ hends), split_cons_of_not_ends hends, htail]
              cases hsplit : split isBreak (d :: text) with
              | nil => exact absurd (split_eq_nil_iff.mp hsplit) (List.cons_ne_nil _ _)
              | cons line lines => rfl

/-- Lines that are written one behind the other are the lines of the text. -/
theorem split_flatMap {α : Type*} {line : α → List Char} {b : Char} (hbreak : isBreak b = true)
    (hb : b ≠ '\r') {xs : List α} (hlines : ∀ x ∈ xs, ∀ c ∈ line x, isBreak c = false) :
    split isBreak (xs.flatMap fun x => line x ++ [b]) = xs.map fun x => line x ++ [b] := by
  have hends : ∀ next, endsBefore isBreak b next = true := by
    intro next
    simp [endsBefore, hbreak, hb]
  have hsingle : ∀ line : List Char, (∀ c ∈ line, isBreak c = false) →
      split isBreak (line ++ [b]) = [line ++ [b]] := by
    intro line hline
    induction line with
    | nil => rw [List.nil_append, split_cons_of_ends (hends _)]; rfl
    | cons c line ih =>
        have hc : endsBefore isBreak c (line ++ [b]).head? = false := by
          simp [endsBefore, hline c List.mem_cons_self]
        rw [List.cons_append, split_cons_of_not_ends hc,
          ih fun c' hc' => hline c' (List.mem_cons_of_mem c hc')]
        rfl
  induction xs with
  | nil => rfl
  | cons x xs ih =>
      have hseam : Seam isBreak (line x ++ [b]) (xs.flatMap fun x => line x ++ [b]) := by
        intro _ c hc
        rw [List.getLast?_concat] at hc
        exact Option.some.inj hc ▸ hends _
      rw [List.flatMap_cons, split_append hseam, hsingle _ (hlines x List.mem_cons_self),
        ih fun x' hx' => hlines x' (List.mem_cons_of_mem x hx')]
      rfl

/-- Lines at the beginning of a text begin as it does. -/
theorem head_of_split {text line : List Char} {lines lines' : List (List Char)}
    (hsplit : split isBreak text = line :: lines ++ lines') :
    (line :: lines).flatten ≠ [] ∧ text.head? = (line :: lines).flatten.head? := by
  have hline : line ≠ [] := ne_nil_of_mem_split (by rw [hsplit]; exact List.mem_cons_self)
  obtain ⟨d, line, rfl⟩ := List.exists_cons_of_ne_nil hline
  refine ⟨by simp, ?_⟩
  rw [← flatten_split isBreak text, hsplit]
  rfl

/-- Where a text is cut, both sides are cut as they are alone, and there is a seam. -/
theorem split_eq_append {text : List Char} {lines lines' : List (List Char)}
    (hsplit : split isBreak text = lines ++ lines') :
    split isBreak lines.flatten = lines ∧ split isBreak lines'.flatten = lines' ∧
      Seam isBreak lines.flatten lines'.flatten := by
  induction text generalizing lines with
  | nil =>
      obtain ⟨rfl, rfl⟩ := List.append_eq_nil_iff.mp hsplit.symm
      exact ⟨rfl, rfl, fun hne => absurd rfl hne⟩
  | cons c rest ih =>
      cases lines with
      | nil =>
          rw [List.nil_append] at hsplit
          refine ⟨rfl, ?_, fun _ c hc => by cases hc⟩
          rw [← hsplit, flatten_split]
      | cons line lines =>
          rw [List.cons_append] at hsplit
          cases hends : endsBefore isBreak c rest.head? with
          | true =>
              rw [split_cons_of_ends hends] at hsplit
              obtain ⟨rfl, hrest⟩ := List.cons.inj hsplit
              obtain ⟨hleft, hright, hseam⟩ := ih hrest
              have htext : rest = lines.flatten ++ lines'.flatten := by
                rw [← List.flatten_append, ← hrest, flatten_split]
              cases lines with
              | nil =>
                  refine ⟨?_, hright, fun _ c' hc' => ?_⟩
                  · cases halone : endsBefore isBreak c ([] : List Char).head? with
                    | true => exact split_cons_of_ends halone
                    | false => exact split_cons_of_not_ends halone
                  · obtain rfl : c = c' := Option.some.inj hc'
                    rw [← hends, htext]
                    rfl
              | cons next lines =>
                  obtain ⟨hne, hhead⟩ := head_of_split hrest
                  refine ⟨?_, hright, (seam_cons hne).mpr hseam⟩
                  rw [List.flatten_cons, List.singleton_append, split_cons_of_ends (hhead ▸ hends), hleft]
          | false =>
              rw [split_cons_of_not_ends hends] at hsplit
              obtain ⟨rfl, hlines⟩ := List.cons.inj hsplit
              cases hrest : split isBreak rest with
              | nil =>
                  rw [hrest, List.tail_nil] at hlines
                  obtain ⟨rfl, rfl⟩ := List.append_eq_nil_iff.mp hlines.symm
                  obtain rfl := split_eq_nil_iff.mp hrest
                  exact ⟨split_cons_of_not_ends hends, rfl, fun hne => absurd rfl hne⟩
              | cons next lines'' =>
                  rw [hrest, List.tail_cons] at hlines
                  have hcut : split isBreak rest = next :: lines ++ lines' := by
                    rw [hrest, hlines]
                    rfl
                  obtain ⟨hleft, hright, hseam⟩ := ih hcut
                  obtain ⟨hne, hhead⟩ := head_of_split hcut
                  refine ⟨?_, hright, (seam_cons hne).mpr hseam⟩
                  rw [List.headD_cons, List.flatten_cons, List.cons_append, ← List.flatten_cons,
                    split_cons_of_not_ends (hhead ▸ hends), hleft]
                  rfl

theorem ended_of_seam {text next : List Char} (hseam : Seam isBreak text next) (hnext : next ≠ []) :
    Ended isBreak text := by
  intro c hc
  have hends := hseam hnext c hc
  simp only [endsBefore, Bool.and_eq_true] at hends
  exact hends.1

/-- A text whose last line has its break can only be torn before a line feed. -/
theorem seam_of_ended {text next : List Char} (hended : Ended isBreak text)
    (hnext : next.head? ≠ some '\n') : Seam isBreak text next := by
  intro _ c hc
  simp [endsBefore, hended c hc, hnext]

end Lines
