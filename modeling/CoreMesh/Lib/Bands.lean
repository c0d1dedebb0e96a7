import Mathlib.Algebra.Order.Group.Unbundled.Abs
import Mathlib.Algebra.Order.Group.Abs
import Mathlib.Data.List.Forall2
import Mathlib.Tactic.Linarith

/-!
# Bands of a sorted list

A list goes through in bands: a band takes in what is near to its first element, and what is not begins the
next one. In a list that is sorted, elements of one band are near to each other, those of different bands are
apart, and which elements share a band does not depend on the order of those with one key.
-/

namespace Bands

variable {α K : Type*} [AddCommGroup K] [LinearOrder K] (width : K) (key : α → K)

/-- The loop, with the key of the first element of the band under way. -/
def gather (first : K) (band : List α) : List α → List (List α)
  | [] => [band]
  | a :: rest =>
      if width < |key a - first| then band :: gather (key a) [a] rest else gather first (band ++ [a]) rest

def bands : List α → List (List α)
  | [] => []
  | a :: rest => gather width key (key a) [a] rest

/-- Not too far from the first key of a band. -/
def near (first : K) (a : α) : Bool := |key a - first| ≤ width

/-! ### One band -/

theorem gather_eq (first : K) (band l : List α) :
    gather width key first band l =
      (band ++ l.takeWhile (near width key first)) ::
        bands width key (l.dropWhile (near width key first)) := by
  induction l generalizing band with
  | nil => rw [gather, List.takeWhile_nil, List.append_nil, List.dropWhile_nil, bands]
  | cons a rest ih =>
      rw [gather]
      split
      · rename_i hfar
        have hnear : near width key first a = false := decide_eq_false (not_le.mpr hfar)
        rw [List.takeWhile_cons_of_neg (by simp [hnear]), List.dropWhile_cons_of_neg (by simp [hnear]),
          List.append_nil, bands]
      · rename_i hfar
        have hnear : near width key first a = true := decide_eq_true (not_lt.mp hfar)
        rw [ih, List.takeWhile_cons_of_pos hnear, List.dropWhile_cons_of_pos hnear, List.append_assoc,
          List.singleton_append]

theorem bands_cons (a : α) (rest : List α) :
    bands width key (a :: rest) =
      (a :: rest.takeWhile (near width key (key a))) ::
        bands width key (rest.dropWhile (near width key (key a))) :=
  gather_eq width key (key a) [a] rest

/-- No element is lost. -/
theorem flatten_bands (l : List α) : (bands width key l).flatten = l := by
  match l with
  | [] => rfl
  | a :: rest =>
      have hshorter : (rest.dropWhile (near width key (key a))).length < (a :: rest).length :=
        (List.dropWhile_suffix _).length_le.trans_lt (Nat.lt_succ_self _)
      rw [bands_cons, List.flatten_cons, flatten_bands, List.cons_append, List.takeWhile_append_dropWhile]
termination_by l.length
decreasing_by exact hshorter

/-! ### Sorted lists -/

/-- What holds up to some place of a list holds of the elements in front of it. -/
theorem takeWhile_eq_filter {p : α → Bool} {l : List α} (hdown : l.Pairwise fun a b => p b → p a) :
    l.takeWhile p = l.filter p ∧ l.dropWhile p = l.filter fun a => !p a := by
  induction l with
  | nil => exact ⟨rfl, rfl⟩
  | cons a rest ih =>
      obtain ⟨hhead, htail⟩ := List.pairwise_cons.mp hdown
      by_cases ha : p a
      · rw [List.takeWhile_cons_of_pos ha, List.dropWhile_cons_of_pos ha, List.filter_cons_of_pos ha,
          List.filter_cons_of_neg (by simpa using ha), (ih htail).1, (ih htail).2]
        exact ⟨rfl, rfl⟩
      · have hnone : ∀ b ∈ a :: rest, ¬p b := by
          intro b hb
          obtain rfl | hb := List.mem_cons.mp hb
          · exact ha
          · exact fun hpb => ha (hhead b hb hpb)
        rw [List.takeWhile_cons_of_neg ha, List.dropWhile_cons_of_neg ha, List.filter_eq_nil_iff.mpr hnone,
          List.filter_eq_self.mpr fun b hb => by simpa using hnone b hb]
        exact ⟨rfl, rfl⟩

variable {width key} [IsOrderedAddMonoid K]

theorem near_iff {first : K} {a : α} (hle : first ≤ key a) :
    near width key first a = true ↔ key a - first ≤ width := by
  rw [near, decide_eq_true_iff, abs_of_nonneg (sub_nonneg.mpr hle)]

/-- The first band of a sorted list, and what is behind it. -/
theorem bands_sorted {a : α} {rest : List α} (hsorted : (a :: rest).Pairwise fun a b => key a ≤ key b) :
    bands width key (a :: rest) =
      (a :: rest.filter (near width key (key a))) ::
        bands width key (rest.filter fun b => !near width key (key a) b) := by
  obtain ⟨hfirst, htail⟩ := List.pairwise_cons.mp hsorted
  have hdown : rest.Pairwise fun b c => near width key (key a) c → near width key (key a) b := by
    refine htail.imp_of_mem fun {b c} hb hc hbc hnear => ?_
    rw [near_iff (hfirst c hc)] at hnear
    rw [near_iff (hfirst b hb)]
    exact (sub_le_sub_right hbc _).trans hnear
  rw [bands_cons, (takeWhile_eq_filter hdown).1, (takeWhile_eq_filter hdown).2]

/-- Elements of one band are near to each other, and later bands are behind earlier ones. -/
theorem bands_spec {l : List α} (hwidth : 0 ≤ width) (hsorted : l.Pairwise fun a b => key a ≤ key b) :
    (∀ band ∈ bands width key l, ∀ a ∈ band, ∀ b ∈ band, |key a - key b| ≤ width) ∧
      (bands width key l).Pairwise fun upper lower => ∀ a ∈ upper, ∀ b ∈ lower, key a < key b := by
  match l with
  | [] => exact ⟨fun band hband => absurd hband List.not_mem_nil, List.Pairwise.nil⟩
  | first :: rest =>
      obtain ⟨hfirst, htail⟩ := List.pairwise_cons.mp hsorted
      have hshorter : (rest.filter fun b => !near width key (key first) b).length < (first :: rest).length :=
        (List.length_filter_le _ _).trans_lt (Nat.lt_succ_self _)
      obtain ⟨hnear, hapart⟩ := bands_spec hwidth (htail.filter fun b => !near width key (key first) b)
      have hband : ∀ a ∈ first :: rest.filter (near width key (key first)),
          key first ≤ key a ∧ key a - key first ≤ width := by
        intro a ha
        obtain rfl | ha := List.mem_cons.mp ha
        · exact ⟨le_rfl, by rwa [sub_self]⟩
        · obtain ⟨hmem, hclose⟩ := List.mem_filter.mp ha
          exact ⟨hfirst a hmem, (near_iff (hfirst a hmem)).mp hclose⟩
      rw [bands_sorted hsorted]
      constructor
      · intro band hmem
        obtain rfl | hmem := List.mem_cons.mp hmem
        · intro a ha b hb
          obtain ⟨hlow, hhigh⟩ := hband a ha
          obtain ⟨hlow', hhigh'⟩ := hband b hb
          rw [abs_le, neg_le_sub_iff_le_add, sub_le_iff_le_add]
          constructor
          · calc
              key b ≤ width + key first := sub_le_iff_le_add.mp hhigh'
              _ ≤ key a + width := by
                rw [add_comm]
                exact add_le_add_left hlow width
          · calc
              key a ≤ width + key first := sub_le_iff_le_add.mp hhigh
              _ ≤ width + key b := add_le_add_right hlow' width
        · exact hnear band hmem
      · refine List.Pairwise.cons ?_ hapart
        intro lower hlower a ha b hb
        have hb' : b ∈ rest.filter fun b => !near width key (key first) b := by
          rw [← flatten_bands width key (rest.filter fun b => !near width key (key first) b)]
          exact List.mem_flatten.mpr ⟨lower, hlower, hb⟩
        obtain ⟨hmem, hfar⟩ := List.mem_filter.mp hb'
        have hfar' : width < key b - key first := by
          rw [← not_le, ← near_iff (hfirst b hmem)]
          simpa using hfar
        exact (sub_lt_sub_iff_right (key first)).mp ((hband a ha).2.trans_lt hfar')
termination_by l.length
decreasing_by exact hshorter

/-- With the first element in it, the first band is a part of the whole list. -/
theorem bands_filter {a : α} {rest : List α} (hwidth : 0 ≤ width)
    (hsorted : (a :: rest).Pairwise fun a b => key a ≤ key b) :
    bands width key (a :: rest) =
      (a :: rest).filter (near width key (key a)) ::
        bands width key ((a :: rest).filter fun b => !near width key (key a) b) := by
  have hself : near width key (key a) a = true := (near_iff le_rfl).mpr (by rwa [sub_self])
  rw [bands_sorted hsorted, List.filter_cons_of_pos hself, List.filter_cons_of_neg (by simp [hself])]

/-- Sorted lists of the same elements have bands of the same elements. -/
theorem bands_perm {l l' : List α} (hwidth : 0 ≤ width) (hperm : l.Perm l')
    (hsorted : l.Pairwise fun a b => key a ≤ key b) (hsorted' : l'.Pairwise fun a b => key a ≤ key b) :
    List.Forall₂ List.Perm (bands width key l) (bands width key l') := by
  match l, l' with
  | [], [] => exact List.Forall₂.nil
  | [], b :: rest' => exact absurd hperm.length_eq (Nat.succ_ne_zero _).symm
  | a :: rest, [] => exact absurd hperm.length_eq (Nat.succ_ne_zero _)
  | a :: rest, b :: rest' =>
      have hleast {c d : α} {l : List α} (hl : (c :: l).Pairwise fun a b => key a ≤ key b)
          (hd : d ∈ c :: l) : key c ≤ key d := by
        obtain rfl | hd := List.mem_cons.mp hd
        · exact le_rfl
        · exact (List.pairwise_cons.mp hl).1 d hd
      have hkey : key a = key b := le_antisymm
        (hleast hsorted (hperm.mem_iff.mpr List.mem_cons_self))
        (hleast hsorted' (hperm.mem_iff.mp List.mem_cons_self))
      have hself : near width key (key a) a = true := (near_iff le_rfl).mpr (by rwa [sub_self])
      have hshorter : ((a :: rest).filter fun b => !near width key (key a) b).length <
          (a :: rest).length := by
        rw [List.filter_cons_of_neg (by simp [hself])]
        exact (List.length_filter_le _ _).trans_lt (Nat.lt_succ_self _)
      rw [bands_filter hwidth hsorted, bands_filter hwidth hsorted', ← hkey]
      exact List.Forall₂.cons (hperm.filter _)
        (bands_perm hwidth (hperm.filter _) (hsorted.filter _) (hsorted'.filter _))
termination_by l.length
decreasing_by exact hshorter

end Bands
