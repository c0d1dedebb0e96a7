import Mathlib.Data.List.MinMax
import Mathlib.Tactic.Common

/-!
# The similarity of two sequences

The longest block that two sequences share is matched first, then what is left of it and what is right of it
in the same way. Elements that are frequent in a long second sequence do not start a block, but a block
grows over them. The elements in blocks are never more than either sequence has, and they are all of both
exactly if the sequences are the same.
-/

namespace SequenceMatcher

variable {α : Type*} [DecidableEq α]

/-- The length of the front that two lists share, of elements that are kept. -/
def common (kept : α → Bool) : List α → List α → ℕ
  | x :: xs, y :: ys => if x = y ∧ kept x then common kept xs ys + 1 else 0
  | _, _ => 0

/-- Of any elements. -/
abbrev commonFront (a b : List α) : ℕ := common (fun _ => true) a b

def commonEnd (a b : List α) : ℕ := commonFront a.reverse b.reverse

/-- Not popular: at most a hundredth of a list of two hundred elements and more, and one. -/
def isKept (b : List α) (x : α) : Bool := b.length < 200 || b.count x ≤ b.length / 100 + 1

/-- `Match`: the places of a block in both lists, and its size. -/
structure Block where
  first : ℕ
  second : ℕ
  size : ℕ

section Blocks

variable (kept : α → Bool) (a b : List α)

/-- Where the longest block of kept elements that starts at a place of the first list is in the second. -/
def column (i : ℕ) : ℕ := ((List.range b.length).argmax fun j => common kept (a.drop i) (b.drop j)).getD 0

/-- The first place where no other starts a longer block. -/
def row : ℕ :=
  ((List.range a.length).argmax fun i => common kept (a.drop i) (b.drop (column kept a b i))).getD 0

/-- All that is the same to both sides of two places. -/
def grow (i j : ℕ) : Block :=
  let back := commonEnd (a.take i) (b.take j)
  ⟨i - back, j - back, back + commonFront (a.drop i) (b.drop j)⟩

/-- `find_longest_match`: the longest block of kept elements, grown to both sides. -/
def findLongestMatch : Block := grow a b (row kept a b) (column kept a b (row kept a b))

end Blocks

/-- The sizes of all blocks together. Every block takes an element of the first list, so that its length is
fuel enough. -/
def matched (kept : α → Bool) : ℕ → List α → List α → ℕ
  | 0, _, _ => 0
  | fuel + 1, a, b =>
      let m := findLongestMatch kept a b
      if m.size = 0 then 0
      else matched kept fuel (a.take m.first) (b.take m.second) + m.size +
        matched kept fuel (a.drop (m.first + m.size)) (b.drop (m.second + m.size))

/-- The number of matches that a ratio is made of. -/
def sumMatches (a b : List α) : ℕ := matched (isKept b) a.length a b

/-! ### Common fronts -/

theorem take_common (kept : α → Bool) (a b : List α) :
    a.take (common kept a b) = b.take (common kept a b) := by
  induction a generalizing b with
  | nil => cases b <;> simp [common]
  | cons x xs ih =>
      cases b with
      | nil => simp [common]
      | cons y ys =>
          rw [common]
          split
          · rename_i hsame
            rw [List.take_succ_cons, List.take_succ_cons, hsame.1, ih]
          · rfl

theorem common_le_left (kept : α → Bool) (a b : List α) : common kept a b ≤ a.length := by
  induction a generalizing b with
  | nil => cases b <;> simp [common]
  | cons x xs ih =>
      cases b with
      | nil => simp [common]
      | cons y ys =>
          rw [common, List.length_cons]
          have htail := ih ys
          split <;> omega

theorem common_comm (kept : α → Bool) (a b : List α) : common kept a b = common kept b a := by
  induction a generalizing b with
  | nil => cases b <;> rfl
  | cons x xs ih =>
      cases b with
      | nil => rfl
      | cons y ys =>
          rw [common, common, ih ys]
          by_cases hsame : x = y
          · rw [hsame]
          · rw [if_neg (fun h => hsame h.1), if_neg (fun h => hsame h.1.symm)]

theorem common_le_right (kept : α → Bool) (a b : List α) : common kept a b ≤ b.length := by
  rw [common_comm]
  exact common_le_left kept b a

/-- A list shares more with itself than with another. -/
theorem common_le_self (kept : α → Bool) (a b : List α) : common kept a b ≤ common kept a a := by
  induction a generalizing b with
  | nil => cases b <;> simp [common]
  | cons x xs ih =>
      cases b with
      | nil => simp [common]
      | cons y ys =>
          rw [common, common]
          have htail := ih ys
          by_cases hkept : kept x
          · rw [if_pos (c := x = x ∧ kept x) ⟨rfl, hkept⟩]
            split <;> omega
          · rw [if_neg (fun h => hkept h.2), if_neg (fun h => hkept h.2)]

@[simp] theorem commonFront_self (a : List α) : commonFront a a = a.length := by
  induction a with
  | nil => rfl
  | cons x xs ih =>
      rw [commonFront, common, if_pos ⟨rfl, rfl⟩, List.length_cons]
      exact congrArg (· + 1) ih

@[simp] theorem commonEnd_self (a : List α) : commonEnd a a = a.length := by
  rw [commonEnd, commonFront_self, List.length_reverse]

theorem commonEnd_le_left (a b : List α) : commonEnd a b ≤ a.length := by
  rw [← List.length_reverse]
  exact common_le_left _ _ _

theorem commonEnd_le_right (a b : List α) : commonEnd a b ≤ b.length := by
  rw [← List.length_reverse]
  exact common_le_right _ _ _

theorem drop_commonEnd (a b : List α) :
    a.drop (a.length - commonEnd a b) = b.drop (b.length - commonEnd a b) := by
  have hfront := take_common (fun _ : α => true) a.reverse b.reverse
  rw [List.take_reverse, List.take_reverse] at hfront
  exact List.reverse_injective hfront

/-! ### One block -/

/-- The first of the greatest values below a bound. -/
theorem argmax_range {f : ℕ → ℕ} {n m : ℕ} (hmax : (List.range n).argmax f = some m) :
    m < n ∧ (∀ i < n, f i ≤ f m) ∧ ∀ i < m, f i < f m := by
  induction n generalizing m with
  | zero => cases hmax
  | succ n ih =>
      rw [List.range_succ, List.argmax_concat] at hmax
      cases hbefore : (List.range n).argmax f with
      | none =>
          rw [hbefore] at hmax
          obtain rfl := Option.some.inj hmax
          have hn := List.range_eq_nil.mp (List.argmax_eq_none.mp hbefore)
          subst hn
          refine ⟨Nat.lt_succ_self _, fun i hi => ?_, fun i hi => absurd hi (Nat.not_lt_zero i)⟩
          rw [Nat.lt_one_iff.mp hi]
      | some best =>
          obtain ⟨hlt, hle, hfirst⟩ := ih hbefore
          rw [hbefore] at hmax
          by_cases hbetter : f best < f n
          · obtain rfl : n = m := by simpa [hbetter] using hmax
            refine ⟨Nat.lt_succ_self _, fun i hi => ?_, fun i hi => (hle i hi).trans_lt hbetter⟩
            obtain hi | rfl := Nat.lt_succ_iff_lt_or_eq.mp hi
            · exact (hle i hi).trans hbetter.le
            · exact le_rfl
          · obtain rfl : best = m := by simpa [hbetter] using hmax
            refine ⟨Nat.lt_succ_of_lt hlt, fun i hi => ?_, hfirst⟩
            obtain hi | rfl := Nat.lt_succ_iff_lt_or_eq.mp hi
            · exact hle i hi
            · exact not_lt.mp hbetter

theorem row_le (kept : α → Bool) (a b : List α) : row kept a b ≤ a.length := by
  unfold row
  cases hmax : (List.range a.length).argmax fun i => common kept (a.drop i) (b.drop (column kept a b i)) with
  | none => exact Nat.zero_le _
  | some i => exact (argmax_range hmax).1.le

theorem column_le (kept : α → Bool) (a b : List α) (i : ℕ) : column kept a b i ≤ b.length := by
  unfold column
  cases hmax : (List.range b.length).argmax fun j => common kept (a.drop i) (b.drop j) with
  | none => exact Nat.zero_le _
  | some j => exact (argmax_range hmax).1.le

/-- No place of the second list has a longer block. -/
theorem common_le_column (kept : α → Bool) {a b : List α} (i : ℕ) {j : ℕ} (hj : j < b.length) :
    common kept (a.drop i) (b.drop j) ≤ common kept (a.drop i) (b.drop (column kept a b i)) := by
  unfold column
  cases hmax : (List.range b.length).argmax fun j => common kept (a.drop i) (b.drop j) with
  | none =>
      have hempty := List.range_eq_nil.mp (List.argmax_eq_none.mp hmax)
      omega
  | some best => exact (argmax_range hmax).2.1 j hj

/-- A block is the same part of both lists. -/
structure Block.Fits (m : Block) (a b : List α) : Prop where
  left : m.first + m.size ≤ a.length
  right : m.second + m.size ≤ b.length
  same : (a.drop m.first).take m.size = (b.drop m.second).take m.size

theorem fits_grow {a b : List α} {i j : ℕ} (hi : i ≤ a.length) (hj : j ≤ b.length) :
    (grow a b i j).Fits a b := by
  have hback := commonEnd_le_left (a.take i) (b.take j)
  have hback' := commonEnd_le_right (a.take i) (b.take j)
  have hend := drop_commonEnd (a.take i) (b.take j)
  have hforth : commonFront (a.drop i) (b.drop j) ≤ a.length - i := by
    rw [← List.length_drop]
    exact common_le_left _ _ _
  have hforth' : commonFront (a.drop i) (b.drop j) ≤ b.length - j := by
    rw [← List.length_drop]
    exact common_le_right _ _ _
  rw [List.length_take, min_eq_left hi] at hback hend
  rw [List.length_take, min_eq_left hj] at hback' hend
  unfold grow
  generalize commonEnd (a.take i) (b.take j) = back at *
  refine ⟨by dsimp only; omega, by dsimp only; omega, ?_⟩
  have hsplit {l : List α} {k : ℕ} (n : ℕ) (hk : back ≤ k) :
      (l.drop (k - back)).take (back + n) = (l.take k).drop (k - back) ++ (l.drop k).take n := by
    rw [List.take_add, List.drop_drop, List.drop_take, Nat.sub_sub_self hk, Nat.sub_add_cancel hk]
  rw [hsplit _ hback, hsplit _ hback', hend, take_common]

theorem fits_findLongestMatch (kept : α → Bool) (a b : List α) : (findLongestMatch kept a b).Fits a b :=
  fits_grow (row_le kept a b) (column_le kept a b _)

/-- With the list itself, the longest block of kept elements is found at its own place. -/
theorem column_row_self (kept : α → Bool) (a : List α) : column kept a a (row kept a a) = row kept a a := by
  cases hrow : (List.range a.length).argmax
      fun i => common kept (a.drop i) (a.drop (column kept a a i)) with
  | none =>
      have hempty := List.range_eq_nil.mp (List.argmax_eq_none.mp hrow)
      have hcolumn := column_le kept a a (row kept a a)
      have hle := row_le kept a a
      omega
  | some i =>
      obtain ⟨hi, -, hfirst⟩ := argmax_range hrow
      have hi' : row kept a a = i := by rw [row, hrow, Option.getD_some]
      rw [hi']
      cases hcolumn : (List.range a.length).argmax fun j => common kept (a.drop i) (a.drop j) with
      | none =>
          have hempty := List.range_eq_nil.mp (List.argmax_eq_none.mp hcolumn)
          omega
      | some j =>
          obtain ⟨hj, -, hfirst'⟩ := argmax_range hcolumn
          have hj' : column kept a a i = j := by rw [column, hcolumn, Option.getD_some]
          rw [hj'] at hfirst ⊢
          obtain hbefore | heq | hbehind := lt_trichotomy j i
          · -- The block is at the earlier place of the first list too.
            have hself := common_le_self kept (a.drop j) (a.drop i)
            rw [common_comm kept (a.drop j) (a.drop i)] at hself
            have hcolumn' := hself.trans (common_le_column kept j hj)
            exact absurd (hfirst j hbefore) (not_lt.mpr hcolumn')
          · exact heq
          · exact absurd (hfirst' i hbehind) (not_lt.mpr (common_le_self kept _ _))

theorem findLongestMatch_self (kept : α → Bool) (a : List α) :
    findLongestMatch kept a a = ⟨0, 0, a.length⟩ := by
  have hle := row_le kept a a
  rw [findLongestMatch, column_row_self, grow, commonEnd_self, commonFront_self, List.length_take,
    List.length_drop, min_eq_left hle, Nat.sub_self, Nat.add_sub_cancel' hle]

/-! ### All blocks -/

/-- The elements in blocks are not more than either list has, and if they are all of both, the lists are the
same. -/
theorem matched_spec (kept : α → Bool) (fuel : ℕ) (a b : List α) :
    matched kept fuel a b ≤ a.length ∧ matched kept fuel a b ≤ b.length ∧
      (matched kept fuel a b = a.length → matched kept fuel a b = b.length → a = b) := by
  induction fuel generalizing a b with
  | zero =>
      refine ⟨Nat.zero_le _, Nat.zero_le _, fun ha hb => ?_⟩
      rw [List.length_eq_zero_iff.mp ha.symm, List.length_eq_zero_iff.mp hb.symm]
  | succ fuel ih =>
      obtain ⟨hleft, hright, hsame⟩ := fits_findLongestMatch kept a b
      rw [matched]
      generalize findLongestMatch kept a b = m at *
      split
      · refine ⟨Nat.zero_le _, Nat.zero_le _, fun ha hb => ?_⟩
        rw [List.length_eq_zero_iff.mp ha.symm, List.length_eq_zero_iff.mp hb.symm]
      · obtain ⟨hl, hl', hleq⟩ := ih (a.take m.first) (b.take m.second)
        obtain ⟨hr, hr', hreq⟩ := ih (a.drop (m.first + m.size)) (b.drop (m.second + m.size))
        rw [List.length_take] at hl hl' hleq
        rw [List.length_take] at hleq
        rw [List.length_drop] at hr hr' hreq
        rw [List.length_drop] at hreq
        refine ⟨by omega, by omega, fun ha hb => ?_⟩
        have hfront := hleq (by omega) (by omega)
        have hback := hreq (by omega) (by omega)
        calc
          a = a.take m.first ++ ((a.drop m.first).take m.size ++ a.drop (m.first + m.size)) := by
            rw [← List.drop_drop, List.take_append_drop, List.take_append_drop]
          _ = b.take m.second ++ ((b.drop m.second).take m.size ++ b.drop (m.second + m.size)) := by
            rw [hfront, hsame, hback]
          _ = b := by rw [← List.drop_drop, List.take_append_drop, List.take_append_drop]

theorem matched_self (kept : α → Bool) (a : List α) : matched kept a.length a a = a.length := by
  cases a with
  | nil => rfl
  | cons x xs =>
      have hnil (fuel : ℕ) : matched kept fuel [] ([] : List α) = 0 :=
        Nat.le_zero.mp (matched_spec kept fuel [] []).1
      rw [List.length_cons, matched, findLongestMatch_self]
      simp [hnil]

/-- Twice the matches are at most both lengths together. -/
theorem two_mul_sumMatches_le (a b : List α) : 2 * sumMatches a b ≤ a.length + b.length := by
  obtain ⟨ha, hb, -⟩ := matched_spec (isKept b) a.length a b
  rw [sumMatches]
  omega

/-- Everything is matched exactly in sequences that are the same. -/
theorem two_mul_sumMatches_eq_iff {a b : List α} : 2 * sumMatches a b = a.length + b.length ↔ a = b := by
  obtain ⟨ha, hb, heq⟩ := matched_spec (isKept b) a.length a b
  constructor
  · intro hall
    rw [sumMatches] at hall
    exact heq (by omega) (by omega)
  · intro hsame
    rw [hsame, sumMatches, matched_self]
    omega

end SequenceMatcher
