import CoreMesh.Lib.Lines

/-!
# Lines that a scan marks

A scan goes over the lines of a text with a state and marks some of them. What it marks is known by the
lines and where they begin, so that two scans of one text, which may cut it into different lines, mark the
same exactly if they do so between any two places where both have a line begin.
-/

namespace Lines

variable {isBreak coarse : Char → Bool}

/-- Lines can be cut from longer lines. -/
theorem split_eq_flatMap (hcoarse : ∀ c, coarse c = true → isBreak c = true) (text : List Char) :
    split isBreak text = (split coarse text).flatMap (split isBreak) := by
  suffices hall : ∀ (lines : List (List Char)) (text : List Char), split coarse text = lines →
      split isBreak text = lines.flatMap (split isBreak) from hall _ text rfl
  intro lines
  induction lines with
  | nil =>
      intro text hsplit
      rw [split_eq_nil_iff.mp hsplit]
      rfl
  | cons line lines ih =>
      intro text hsplit
      obtain ⟨-, hrest, hseam⟩ := split_eq_append (show split coarse text = [line] ++ lines from hsplit)
      have htext : text = line ++ lines.flatten := by
        rw [← flatten_split coarse text, hsplit, List.flatten_cons]
      have hfine : Seam isBreak line lines.flatten := by
        intro hnext c hc
        rw [List.flatten_singleton] at hseam
        have hends := hseam hnext c hc
        simp only [endsBefore, Bool.and_eq_true] at hends ⊢
        exact ⟨hcoarse c hends.1, hends.2⟩
      rw [htext, split_append hfine, List.flatMap_cons, ih _ hrest]

theorem split_eq_singleton_of_mem {line : List Char} (hline : line ∈ split isBreak line) :
    split isBreak line = [line] := by
  obtain ⟨before, behind, hsplit⟩ := List.append_of_mem hline
  have hlength := congrArg List.length (flatten_split isBreak line)
  rw [hsplit, List.flatten_append, List.flatten_cons, List.length_append, List.length_append] at hlength
  have hnil : ∀ lines : List (List Char), (∀ l ∈ lines, l ∈ split isBreak line) →
      lines.flatten.length = 0 → lines = [] := by
    intro lines hlines hzero
    cases lines with
    | nil => rfl
    | cons first lines =>
        have hfirst := List.length_pos_iff.mpr (ne_nil_of_mem_split (hlines first List.mem_cons_self))
        rw [List.flatten_cons, List.length_append] at hzero
        omega
  rw [hsplit, hnil before (fun l hl => by rw [hsplit]; exact List.mem_append_left _ hl) (by omega),
    hnil behind (fun l hl => by
      rw [hsplit]; exact List.mem_append_right _ (List.mem_cons_of_mem _ hl)) (by omega)]
  rfl

section Marked

variable {σ : Type*} (marks : σ → List Char → Bool) (next : σ → List Char → σ)

/-- The marked lines, with where they begin. -/
def marked : σ → Nat → List (List Char) → List (Nat × List Char)
  | _, _, [] => []
  | state, offset, line :: lines =>
      (if marks state line then [(offset, line)] else []) ++
        marked (next state line) (offset + line.length) lines

variable {marks next}

theorem marked_append (state : σ) (offset : Nat) (lines lines' : List (List Char)) :
    marked marks next state offset (lines ++ lines') =
      marked marks next state offset lines ++
        marked marks next (lines.foldl next state) (offset + lines.flatten.length) lines' := by
  induction lines generalizing state offset with
  | nil => rfl
  | cons line lines ih =>
      rw [List.cons_append, marked, marked, ih, List.append_assoc, List.foldl_cons, List.flatten_cons,
        List.length_append, Nat.add_assoc]

theorem mem_marked {state : σ} {offset : Nat} {lines : List (List Char)} {place : Nat} {line : List Char}
    (hmarked : (place, line) ∈ marked marks next state offset lines) :
    line ∈ lines ∧ offset ≤ place ∧ place + line.length ≤ offset + lines.flatten.length := by
  induction lines generalizing state offset with
  | nil => cases hmarked
  | cons first lines ih =>
      rw [List.flatten_cons, List.length_append]
      obtain hfirst | hrest := List.mem_append.mp hmarked
      · by_cases hmarks : marks state first = true
        · rw [if_pos hmarks, List.mem_singleton] at hfirst
          obtain ⟨rfl, rfl⟩ := Prod.mk.inj hfirst
          exact ⟨List.mem_cons_self, Nat.le_refl _, by omega⟩
        · rw [if_neg hmarks] at hfirst
          cases hfirst
      · obtain ⟨hline, hplace, hend⟩ := ih hrest
        exact ⟨List.mem_cons_of_mem _ hline, by omega, by omega⟩

/-- What is marked in front of a place, and behind it, can be told apart. -/
theorem append_eq_append_iff_of_place {front front' behind behind' : List (Nat × List Char)} {place : Nat}
    (hfront : ∀ mark ∈ front, mark.1 < place) (hfront' : ∀ mark ∈ front', mark.1 < place)
    (hbehind : ∀ mark ∈ behind, place ≤ mark.1) (hbehind' : ∀ mark ∈ behind', place ≤ mark.1) :
    front ++ behind = front' ++ behind' ↔ front = front' ∧ behind = behind' := by
  have hkept : ∀ front behind : List (Nat × List Char), (∀ mark ∈ front, mark.1 < place) →
      (∀ mark ∈ behind, place ≤ mark.1) →
        (front ++ behind).filter (fun mark => mark.1 < place) = front := by
    intro front behind hfront hbehind
    rw [List.filter_append, List.filter_eq_self.mpr fun mark hmark => by simpa using hfront mark hmark,
      List.filter_eq_nil_iff.mpr fun mark hmark => by simpa using hbehind mark hmark, List.append_nil]
  constructor
  · intro hsame
    have hfronts : front = front' := by
      rw [← hkept front behind hfront hbehind, hsame, hkept front' behind' hfront' hbehind']
    rw [hfronts] at hsame
    exact ⟨hfronts, List.append_cancel_left hsame⟩
  · rintro ⟨rfl, rfl⟩
    rfl

end Marked

end Lines
