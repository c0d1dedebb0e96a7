import Mathlib.Data.List.Nodup
import Mathlib.Data.List.Sort
import Mathlib.Order.Basic
import Mathlib.Tactic.Common

/-!
# Rankings

A list by falling score, elements with the same score in their old order. Two lists of the same elements
have the same first places exactly if the ties that these places leave undecided are in the same order.
-/

namespace Ranking

universe u v

variable {α : Type u} {K : Type v} [LinearOrder K]

/-- The order of positions in a ranking. -/
def leads (score : α → K) (a b : α × Nat) : Prop :=
  score b.1 < score a.1 ∨ (score a.1 = score b.1 ∧ a.2 ≤ b.2)

instance (score : α → K) : DecidableRel (leads score) :=
  fun _ _ => inferInstanceAs (Decidable (_ ∨ _))

instance (score : α → K) : Std.Total (leads score) := ⟨fun a b => by
  obtain hlt | heq | hgt := lt_trichotomy (score a.1) (score b.1)
  · exact .inr (.inl hlt)
  · obtain hle | hle := le_total a.2 b.2
    · exact .inl (.inr ⟨heq, hle⟩)
    · exact .inr (.inr ⟨heq.symm, hle⟩)
  · exact .inl (.inl hgt)⟩

instance (score : α → K) : IsTrans (α × Nat) (leads score) := ⟨by
  rintro a b c (hab | ⟨hab, hpos⟩) (hbc | ⟨hbc, hpos'⟩)
  · exact .inl (hbc.trans hab)
  · exact .inl (hbc ▸ hab)
  · exact .inl (hab ▸ hbc)
  · exact .inr ⟨hab.trans hbc, hpos.trans hpos'⟩⟩

def rank (score : α → K) (l : List α) : List α :=
  (l.zipIdx.insertionSort (leads score)).map Prod.fst

/-- One element comes before another one in the ranking. -/
def Outranks (score : α → K) (l : List α) (a b : α) : Prop :=
  score b < score a ∨ (score a = score b ∧ List.Sublist [a, b] l)

variable {score : α → K} {l l' : List α}

theorem perm_rank (score : α → K) (l : List α) : (rank score l).Perm l := by
  have hperm := (List.perm_insertionSort (leads score) l.zipIdx).map Prod.fst
  rwa [List.zipIdx_map_fst] at hperm

theorem pairwise_rank (score : α → K) (l : List α) :
    (rank score l).Pairwise (Outranks score l) := by
  have hperm := List.perm_insertionSort (leads score) l.zipIdx
  have hdistinct : (l.zipIdx.insertionSort (leads score)).Pairwise fun a b => a.2 ≠ b.2 := by
    refine List.pairwise_map.mp ((hperm.map Prod.snd).nodup_iff.mpr ?_)
    rw [List.zipIdx_map_snd]
    exact List.nodup_range'
  have hplaces : l.Pairwise fun a b => List.Sublist [a, b] l :=
    List.pairwise_iff_forall_sublist.mpr fun h => h
  refine List.pairwise_map.mpr (List.Pairwise.imp_of_mem ?_
    ((List.pairwise_insertionSort (leads score) l.zipIdx).and hdistinct))
  rintro ⟨a, i⟩ ⟨b, j⟩ ha hb ⟨hlt | ⟨heq, hle⟩, hne⟩
  · exact .inl hlt
  · refine .inr ⟨heq, ?_⟩
    have ha : l[i]? = some a := List.mem_zipIdx_iff_getElem?.mp (hperm.mem_iff.mp ha)
    have hb : l[j]? = some b := List.mem_zipIdx_iff_getElem?.mp (hperm.mem_iff.mp hb)
    obtain ⟨hi, rfl⟩ := List.getElem?_eq_some_iff.mp ha
    obtain ⟨hj, rfl⟩ := List.getElem?_eq_some_iff.mp hb
    exact List.pairwise_iff_getElem.mp hplaces i j hi hj (lt_of_le_of_ne hle hne)

theorem not_sublist_swap (hnodup : l.Nodup) {a b : α} (hab : List.Sublist [a, b] l) :
    ¬ List.Sublist [b, a] l := by
  induction l with
  | nil => cases hab
  | cons c l ih =>
      obtain ⟨hc, hl⟩ := List.nodup_cons.mp hnodup
      intro hba
      cases hab with
      | cons _ hab =>
          cases hba with
          | cons _ hba => exact ih hl hab hba
          | cons_cons _ hba => exact hc (hab.subset (by simp))
      | cons_cons _ hab =>
          have hb : b ∈ l := List.singleton_sublist.mp hab
          cases hba with
          | cons _ hba => exact hc (hba.subset (by simp))
          | cons_cons _ hba => exact hc hb

theorem Outranks.asymm (hnodup : l.Nodup) {a b : α} (hab : Outranks score l a b) :
    ¬ Outranks score l b a := by
  rintro (hlt | ⟨heq, hba⟩)
  · obtain hlt' | ⟨heq, -⟩ := hab
    · exact lt_asymm hlt hlt'
    · exact lt_irrefl _ (heq ▸ hlt)
  · obtain hlt' | ⟨-, hab⟩ := hab
    · exact lt_irrefl _ (heq ▸ hlt')
    · exact not_sublist_swap hnodup hab hba

/-! ### First places -/

/-- A list begins as its sorted version does exactly if its first places come before all behind them. -/
theorem take_eq_take_iff {r : α → α → Prop} (hasymm : ∀ a b, r a b → ¬ r b a) (hperm : l.Perm l')
    (hsorted : l'.Pairwise r) (n : Nat) :
    l.take n = l'.take n ↔
      ∀ front x back, l = front ++ x :: back → front.length < n → ∀ y ∈ back, r x y := by
  induction n generalizing l l' with
  | zero => simp
  | succ n ih =>
      cases l' with
      | nil =>
          obtain rfl := hperm.eq_nil
          simp
      | cons b l' =>
          obtain ⟨hfirst, hrest⟩ := List.pairwise_cons.mp hsorted
          cases l with
          | nil => exact absurd hperm.symm.eq_nil (List.cons_ne_nil _ _)
          | cons a l =>
              rw [List.take_succ_cons, List.take_succ_cons, List.cons.injEq]
              constructor
              · rintro ⟨rfl, htake⟩ front x back heq hlength y hy
                have hperm' := (List.perm_cons a).mp hperm
                cases front with
                | nil =>
                    obtain ⟨rfl, rfl⟩ := List.cons.inj heq
                    exact hfirst y (hperm'.mem_iff.mp hy)
                | cons c front =>
                    obtain ⟨-, rfl⟩ := List.cons.inj heq
                    exact (ih hperm' hrest).mp htake front x back rfl (Nat.lt_of_succ_lt_succ hlength) y hy
              · intro hall
                have hhead := hall [] a l rfl (Nat.succ_pos n)
                have hsame : a = b := by
                  by_contra hne
                  have hb : b ∈ l := (List.mem_cons.mp (hperm.mem_iff.mpr List.mem_cons_self)).resolve_left
                    (Ne.symm hne)
                  have ha : a ∈ l' := (List.mem_cons.mp (hperm.mem_iff.mp List.mem_cons_self)).resolve_left hne
                  exact hasymm _ _ (hhead b hb) (hfirst a ha)
                subst hsame
                refine ⟨rfl, (ih ((List.perm_cons a).mp hperm) hrest).mpr ?_⟩
                rintro front x back rfl hlength y hy
                exact hall (a :: front) x back rfl (Nat.succ_lt_succ hlength) y hy

/-- An element of a sorted list stands behind those that come before it. -/
theorem countP_eq_length {r : α → α → Prop} [DecidableRel r] (hasymm : ∀ a b, r a b → ¬ r b a)
    {front back : List α} {x : α} (hsorted : (front ++ x :: back).Pairwise r) :
    (front ++ x :: back).countP (fun a => r a x) = front.length := by
  obtain ⟨-, hbehind, hbefore⟩ := List.pairwise_append.mp hsorted
  have hfront : front.countP (fun a => decide (r a x)) = front.length :=
    List.countP_eq_length.mpr fun a ha => by simpa using hbefore a ha x List.mem_cons_self
  have hback : (x :: back).countP (fun a => decide (r a x)) = 0 := by
    refine List.countP_eq_zero.mpr fun a ha => ?_
    obtain rfl | ha := List.mem_cons.mp ha
    · simpa using fun h => hasymm _ _ h h
    · simpa using hasymm _ _ ((List.pairwise_cons.mp hbehind).1 a ha)
  rw [List.countP_append, hfront, hback, Nat.add_zero]

theorem filter_take {p : α → Bool} (hsorted : l.Pairwise fun a b => p b = true → p a = true) (n : Nat) :
    (l.take n).filter p = (l.filter p).take n := by
  induction l generalizing n with
  | nil => simp
  | cons a l ih =>
      obtain ⟨hfirst, hrest⟩ := List.pairwise_cons.mp hsorted
      cases n with
      | zero => simp
      | succ n =>
          by_cases ha : p a = true
          · rw [List.take_succ_cons, List.filter_cons_of_pos ha, List.filter_cons_of_pos ha,
              List.take_succ_cons, ih hrest]
          · have hnone : ∀ m : List α, (∀ b ∈ m, b ∈ l) → m.filter p = [] := by
              intro m hm
              exact List.filter_eq_nil_iff.mpr fun b hb hpb => ha (hfirst b (hm b hb) hpb)
            rw [List.take_succ_cons, List.filter_cons_of_neg ha, List.filter_cons_of_neg ha,
              hnone _ fun b hb => List.mem_of_mem_take hb, hnone l fun b hb => hb, List.take_nil]

/-- What comes behind an element of a list. -/
theorem sublist_pair_iff (hnodup : l.Nodup) {front back : List α} {x : α} (hl : l = front ++ x :: back)
    (y : α) : List.Sublist [x, y] l ↔ y ∈ back := by
  subst hl
  constructor
  · intro hsub
    have hy : y ∈ front ∨ y ∈ x :: back := List.mem_append.mp (hsub.subset (by simp))
    have hne : y ≠ x := by
      rintro rfl
      exact absurd (hnodup.sublist hsub) (by simp)
    obtain hfront | hback := hy
    · have hswap : List.Sublist [y, x] (front ++ x :: back) :=
        (List.singleton_sublist.mpr hfront).append (List.singleton_sublist.mpr List.mem_cons_self)
      exact absurd hsub (not_sublist_swap hnodup hswap)
    · exact (List.mem_cons.mp hback).resolve_left hne
  · intro hy
    exact ((List.singleton_sublist.mpr hy).cons_cons x).trans (List.sublist_append_right front _)

theorem countP_lt_or_eq (score : α → K) (x : α) (m : List α) :
    m.countP (fun a => score x < score a ∨ score a = score x) =
      m.countP (fun a => score x < score a) + m.countP (fun a => score a = score x) := by
  induction m with
  | nil => rfl
  | cons a m ih =>
      rw [List.countP_cons, List.countP_cons, List.countP_cons, ih]
      obtain hlt | heq | hgt := lt_trichotomy (score x) (score a)
      · simp [hlt, hlt.ne']
        omega
      · simp [heq]
        omega
      · simp [hgt.not_gt, hgt.ne]

open Classical in
/-- How many elements come before one in the ranking. -/
theorem countP_outranks (hnodup : l.Nodup) {front back : List α} {x : α} (hl : l = front ++ x :: back) :
    l.countP (fun a => Outranks score l a x) =
      l.countP (fun a => score x < score a) + front.countP (fun a => score a = score x) := by
  have hplace : ∀ a, List.Sublist [a, x] l ↔ a ∈ front := by
    intro a
    constructor
    · intro hsub
      have ha : a ∈ front ∨ a ∈ x :: back := by
        rw [← List.mem_append, ← hl]
        exact hsub.subset List.mem_cons_self
      refine ha.resolve_right fun hback => ?_
      obtain rfl | hback := List.mem_cons.mp hback
      · exact absurd (hnodup.sublist hsub) (by simp)
      · exact not_sublist_swap hnodup hsub ((sublist_pair_iff hnodup hl a).mpr hback)
    · intro ha
      rw [hl]
      exact (List.singleton_sublist.mpr ha).append (List.singleton_sublist.mpr List.mem_cons_self)
  have hfresh : ∀ a ∈ x :: back, a ∉ front := by
    rw [hl] at hnodup
    intro a ha hfront
    exact (List.nodup_append.mp hnodup).2.2 a hfront a ha rfl
  have hfront : front.countP (fun a => decide (Outranks score l a x)) =
      front.countP fun a => score x < score a ∨ score a = score x := by
    refine List.countP_congr fun a ha => ?_
    simp [Outranks, hplace, ha]
  have hback : (x :: back).countP (fun a => decide (Outranks score l a x)) =
      (x :: back).countP fun a => score x < score a := by
    refine List.countP_congr fun a ha => ?_
    simp [Outranks, hplace, hfresh a ha]
  have hcount : ∀ q : α → Bool, l.countP q = front.countP q + (x :: back).countP q := by
    intro q
    rw [hl, List.countP_append]
  rw [hcount, hcount, hfront, hback, countP_lt_or_eq]
  omega

open Classical in
/-- The place of an element among those of the ranking that count. -/
theorem length_front {p : α → Bool} (hp : ∀ a b, score b ≤ score a → p b = true → p a = true)
    (hnodup : l.Nodup) {front back front' back' : List α} {x : α} (hl : l = front ++ x :: back)
    (hrank : (rank score l).filter p = front' ++ x :: back') :
    front'.length =
      l.countP (fun a => score x < score a) + front.countP (fun a => score a = score x) := by
  have hx : p x = true := by
    have hmem : x ∈ (rank score l).filter p := by rw [hrank]; simp
    exact (List.mem_filter.mp hmem).2
  have hsorted : ((rank score l).filter p).Pairwise (Outranks score l) := (pairwise_rank score l).filter p
  have hall : ∀ a, Outranks score l a x → p a = true := by
    rintro a (hlt | ⟨heq, -⟩)
    · exact hp a x hlt.le hx
    · exact hp a x heq.ge hx
  rw [hrank] at hsorted
  rw [← countP_outranks hnodup hl, ← countP_eq_length (fun _ _ => Outranks.asymm hnodup) hsorted, ← hrank,
    List.countP_filter, ← (perm_rank score l).countP_eq]
  refine List.countP_congr fun a _ => ?_
  simp only [decide_eq_true_eq, Bool.and_eq_true]
  exact ⟨And.left, fun h => ⟨h, hall a h⟩⟩

/-- The first places of two rankings of the same elements, as far as the elements count. -/
theorem take_rank_eq_iff {p : α → Bool} (hp : ∀ a b, score b ≤ score a → p b = true → p a = true)
    (hperm : l.Perm l') (hnodup : l.Nodup) (n : Nat) :
    ((rank score l).take n).filter p = ((rank score l').take n).filter p ↔
      ∀ front x back, l = front ++ x :: back → p x = true →
        l.countP (fun a => score x < score a) + front.countP (fun a => score a = score x) < n →
          ∀ y ∈ back, score y = score x → List.Sublist [x, y] l' := by
  have hfalls : ∀ m : List α, (rank score m).Pairwise fun a b => p b = true → p a = true := by
    intro m
    refine (pairwise_rank score m).imp ?_
    rintro a b (hlt | ⟨heq, -⟩)
    · exact hp a b hlt.le
    · exact hp a b heq.ge
  have hsorted : ∀ m : List α, ((rank score m).filter p).Pairwise (Outranks score m) :=
    fun m => (pairwise_rank score m).filter p
  have hranks : ((rank score l).filter p).Perm ((rank score l').filter p) :=
    ((perm_rank score l).trans (hperm.trans (perm_rank score l').symm)).filter p
  have hasymm : ∀ a b, Outranks score l' a b → ¬ Outranks score l' b a :=
    fun _ _ => Outranks.asymm (hperm.nodup_iff.mp hnodup)
  rw [filter_take (hfalls l), filter_take (hfalls l'),
    take_eq_take_iff hasymm hranks (hsorted l')]
  constructor
  · intro hfirst front x back hl hx hplace y hy hsame
    have hsub := (sublist_pair_iff hnodup hl y).mpr hy
    have hmem : ∀ a ∈ l, p a = true → a ∈ (rank score l).filter p :=
      fun a ha hpa => List.mem_filter.mpr ⟨(perm_rank score l).mem_iff.mpr ha, hpa⟩
    obtain ⟨front', back', hrank⟩ := List.append_of_mem (hmem x (by rw [hl]; simp) hx)
    have hy' : y ∈ front' ++ x :: back' := by
      rw [← hrank]
      exact hmem y (hsub.subset (by simp)) (hp y x hsame.ge hx)
    have hback : y ∈ back' := by
      obtain hfront | hrest := List.mem_append.mp hy'
      · have hbefore := hsorted l
        rw [hrank] at hbefore
        have hyx := (List.pairwise_append.mp hbefore).2.2 y hfront x List.mem_cons_self
        exact absurd hyx (Outranks.asymm hnodup (.inr ⟨hsame.symm, hsub⟩))
      · refine (List.mem_cons.mp hrest).resolve_left ?_
        rintro rfl
        exact absurd (hnodup.sublist hsub) (by simp)
    rw [← length_front hp hnodup hl hrank] at hplace
    obtain hlt | ⟨-, hsub'⟩ := hfirst front' x back' hrank hplace y hback
    · exact absurd hsame hlt.ne
    · exact hsub'
  · intro hties front' x back' hrank hplace y hy
    have hbefore := hsorted l
    rw [hrank] at hbefore
    obtain hlt | ⟨heq, hsub⟩ := (List.pairwise_cons.mp (List.pairwise_append.mp hbefore).2.1).1 y hy
    · exact .inl hlt
    · have hx : x ∈ (rank score l).filter p := by rw [hrank]; simp
      obtain ⟨front, back, hl⟩ := List.append_of_mem ((perm_rank score l).mem_iff.mp (List.mem_filter.mp hx).1)
      rw [length_front hp hnodup hl hrank] at hplace
      exact .inr ⟨heq, hties front x back hl (List.mem_filter.mp hx).2 hplace y
        ((sublist_pair_iff hnodup hl y).mp hsub) heq.symm⟩

end Ranking
