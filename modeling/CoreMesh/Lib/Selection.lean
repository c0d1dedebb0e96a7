import Mathlib.Data.List.MinMax
import Mathlib.Data.List.Nodup
import Mathlib.Data.List.Sort
import Mathlib.Tactic.Common

/-!
# Selecting from a list

Sorting by a key, the place of the first least number, the first elements with texts of their own, and a
list that is gone through in blocks.
-/

namespace Selection

universe u v w

variable {α : Type u} {β : Type v} {K : Type w} [LinearOrder K]

/-! ### Sorting by a key -/

/-- The elements by their keys, those with one key in their old order. -/
def sortedBy (key : α → K) (l : List α) : List α := l.mergeSort fun a b => decide (key a ≤ key b)

theorem sortedBy_perm (key : α → K) (l : List α) : (sortedBy key l).Perm l := List.mergeSort_perm _ _

theorem mem_sortedBy {key : α → K} {l : List α} {a : α} : a ∈ sortedBy key l ↔ a ∈ l :=
  (sortedBy_perm key l).mem_iff

theorem pairwise_sortedBy (key : α → K) (l : List α) :
    (sortedBy key l).Pairwise fun a b => key a ≤ key b := by
  have hsorted : (sortedBy key l).Pairwise fun a b => decide (key a ≤ key b) = true :=
    List.pairwise_mergeSort
    (fun a b c hab hbc => decide_eq_true ((of_decide_eq_true hab).trans (of_decide_eq_true hbc)))
    (fun a b => by
      rw [Bool.or_eq_true, decide_eq_true_iff, decide_eq_true_iff]
      exact le_total _ _) l
  exact hsorted.imp fun hle => of_decide_eq_true hle

/-! ### The first least number -/

/-- `argmin` of an array that is not empty. -/
def argmin (numbers : List K) (default : K) : ℕ :=
  ((List.range numbers.length).argmin fun i => numbers.getD i default).getD 0

theorem argmin_lt_length {numbers : List K} (hne : numbers ≠ []) (default : K) :
    argmin numbers default < numbers.length := by
  unfold argmin
  cases hmin : (List.range numbers.length).argmin fun i => numbers.getD i default with
  | none => exact List.length_pos_iff.mpr hne
  | some i => exact List.mem_range.mp (List.argmin_mem hmin)

theorem argmin_le {numbers : List K} (default : K) {i : ℕ} (hi : i < numbers.length) :
    numbers.getD (argmin numbers default) default ≤ numbers.getD i default := by
  unfold argmin
  cases hmin : (List.range numbers.length).argmin fun i => numbers.getD i default with
  | none =>
      rw [List.argmin_eq_none, List.range_eq_nil] at hmin
      omega
  | some j => exact List.le_of_mem_argmin (List.mem_range.mpr hi) hmin

/-! ### Blocks -/

/-- A list in blocks of the size, of which each is worked on by itself and knows where it starts. -/
def inBlocks (size : ℕ) (work : ℕ → List α → List β) (l : List α) : List β :=
  (List.range ((l.length + size - 1) / size)).flatMap fun block =>
    work (size * block) ((l.drop (size * block)).take size)

/-- The rows of the blocks so far are those of the list up to there. -/
theorem flatMap_blocks {size : ℕ} (hsize : 0 < size) (f : ℕ → List α → ℕ → β) (l : List α) (count : ℕ) :
    ((List.range count).flatMap fun block =>
      (List.range ((l.drop (size * block)).take size).length).map
        (f (size * block) ((l.drop (size * block)).take size))) =
      (List.range (min (size * count) l.length)).map fun i =>
        f (size * (i / size)) ((l.drop (size * (i / size))).take size) (i % size) := by
  induction count with
  | zero => simp
  | succ count ih =>
      rw [List.range_succ, List.flatMap_append, ih, List.flatMap_singleton]
      have hsplit : min (size * (count + 1)) l.length =
          min (size * count) l.length + ((l.drop (size * count)).take size).length := by
        rw [List.length_take, List.length_drop, Nat.mul_succ]
        omega
      rw [hsplit, List.range_add, List.map_append, List.map_map]
      congr 1
      apply List.map_congr_left
      intro i hi
      rw [List.mem_range, List.length_take, List.length_drop] at hi
      have hstart : min (size * count) l.length = size * count := by omega
      have hblock : (size * count + i) / size = count := by
        rw [Nat.mul_add_div hsize, Nat.div_eq_of_lt (by omega), Nat.add_zero]
      have hrow : (size * count + i) % size = i := by
        rw [Nat.mul_add_mod, Nat.mod_eq_of_lt (by omega)]
      rw [Function.comp_apply, hstart, hblock, hrow]

/-- What is done to each row of a block is done to each row. -/
theorem inBlocks_rows {size : ℕ} (hsize : 0 < size) (f : ℕ → List α → ℕ → β) (l : List α) :
    inBlocks size (fun start rows => (List.range rows.length).map (f start rows)) l =
      (List.range l.length).map fun i =>
        f (size * (i / size)) ((l.drop (size * (i / size))).take size) (i % size) := by
  have hlength : l.length ≤ size * ((l.length + size - 1) / size) := by
    have hdiv := Nat.lt_mul_div_succ (l.length + size - 1) hsize
    rw [Nat.mul_add_one] at hdiv
    omega
  unfold inBlocks
  rw [flatMap_blocks hsize, min_eq_right hlength]

/-! ### The first with texts of their own -/

variable [DecidableEq β]

/-- The first elements whose texts are neither seen nor that of one before, as long as there is room. -/
def firstDistinct (text : α → β) : (room : ℕ) → (seen : List β) → List α → List α
  | 0, _, _ => []
  | _ + 1, _, [] => []
  | room + 1, seen, a :: rest =>
      if text a ∈ seen then firstDistinct text (room + 1) seen rest
      else a :: firstDistinct text room (text a :: seen) rest

variable (text : α → β)

theorem firstDistinct_zero (seen : List β) (l : List α) : firstDistinct text 0 seen l = [] := by
  unfold firstDistinct
  rfl

theorem firstDistinct_sublist (room : ℕ) (seen : List β) (l : List α) :
    (firstDistinct text room seen l).Sublist l := by
  induction l generalizing room seen with
  | nil => cases room <;> exact List.Sublist.refl _
  | cons a rest ih =>
      cases room with
      | zero =>
          rw [firstDistinct_zero]
          exact List.nil_sublist _
      | succ room =>
          rw [firstDistinct]
          split
          · exact (ih _ _).cons a
          · exact (ih _ _).cons_cons a

theorem length_firstDistinct_le (room : ℕ) (seen : List β) (l : List α) :
    (firstDistinct text room seen l).length ≤ room := by
  induction l generalizing room seen with
  | nil => cases room <;> exact Nat.zero_le _
  | cons a rest ih =>
      cases room with
      | zero =>
          rw [firstDistinct_zero]
          exact Nat.le_refl _
      | succ room =>
          rw [firstDistinct]
          split
          · exact ih _ _
          · exact Nat.succ_le_succ (ih _ _)

theorem nodup_firstDistinct {seen : List β} (hseen : seen.Nodup) (room : ℕ) (l : List α) :
    ((firstDistinct text room seen l).map text ++ seen).Nodup := by
  induction l generalizing room seen with
  | nil => cases room <;> exact hseen
  | cons a rest ih =>
      cases room with
      | zero =>
          rw [firstDistinct_zero]
          exact hseen
      | succ room =>
          rw [firstDistinct]
          split
          · exact ih hseen _
          · rename_i hfresh
            have hrest := ih (List.nodup_cons.mpr ⟨hfresh, hseen⟩) room
            rw [List.map_cons, List.cons_append]
            exact List.perm_middle.nodup_iff.mp hrest

/-- What is left out has the text of one that is taken and not behind it, or there was no room left. -/
theorem firstDistinct_complete {R : α → α → Prop} (hrefl : ∀ a, R a a) {seen : List β} {l : List α}
    (hsorted : l.Pairwise R) (room : ℕ) {a : α} (ha : a ∈ l) :
    text a ∈ seen ∨
      (∃ first ∈ firstDistinct text room seen l, text first = text a ∧ R first a) ∨
      (firstDistinct text room seen l).length = room ∧
        ∀ first ∈ firstDistinct text room seen l, R first a := by
  induction l generalizing room seen with
  | nil => cases ha
  | cons b rest ih =>
      obtain ⟨hfirst, hrest⟩ := List.pairwise_cons.mp hsorted
      cases room with
      | zero =>
          rw [firstDistinct_zero]
          exact .inr (.inr ⟨rfl, fun first hmem => absurd hmem List.not_mem_nil⟩)
      | succ room =>
          rw [firstDistinct]
          split
          · rename_i hseen
            obtain rfl | ha := List.mem_cons.mp ha
            · exact .inl hseen
            · exact ih hrest _ ha
          · obtain rfl | hbehind := List.mem_cons.mp ha
            · exact .inr (.inl ⟨a, List.mem_cons_self, rfl, hrefl a⟩)
            · obtain hseen | ⟨first, hmem, hsame, hle⟩ | ⟨hfull, hall⟩ :=
                @ih (text b :: seen) hrest room hbehind
              · obtain hsame | hseen := List.mem_cons.mp hseen
                · exact .inr (.inl ⟨b, List.mem_cons_self, hsame.symm, hfirst a hbehind⟩)
                · exact .inl hseen
              · exact .inr (.inl ⟨first, List.mem_cons_of_mem b hmem, hsame, hle⟩)
              · refine .inr (.inr ⟨congrArg Nat.succ hfull, ?_⟩)
                intro first hmem
                obtain rfl | hmem := List.mem_cons.mp hmem
                · exact hfirst a hbehind
                · exact hall first hmem

end Selection
