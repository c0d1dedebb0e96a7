import Mathlib.Algebra.GroupWithZero.Nat
import Mathlib.Algebra.Order.BigOperators.Group.List
import Mathlib.Algebra.Order.Group.Nat
import Mathlib.Data.List.Forall2
import Mathlib.Tactic.Common

/-!
# Texts that grow by lines

A text grows when its lines are lengthened at their ends and lines are put between them. What is read
line by line, from the start of a line on, is only found more often: words, marked lines, a needle without
line breaks. A line break is any fixed element.
-/

namespace LineGrowth

universe u v

variable {α : Type u} [DecidableEq α] {sep : α} {s t : List α}

/-- The lines of the one text are lengthened to be lines of the other, in order. -/
def Grows (sep : α) (s t : List α) : Prop :=
  List.SublistForall₂ (· <+: ·) (s.splitOn sep) (t.splitOn sep)

/-! ### Splitting -/

section Splitting

omit [DecidableEq α] in
/-- Splitting at some elements cuts a text after another one where it cuts both, except between them. -/
theorem splitOnP_append (q : α → Bool) (s t : List α) : ∃ before last first after,
    s.splitOnP q = before ++ [last] ∧ t.splitOnP q = first :: after ∧
      (s ++ t).splitOnP q = before ++ (last ++ first) :: after := by
  induction s with
  | nil =>
      obtain ⟨first, after, hsplit⟩ := List.exists_cons_of_ne_nil (List.splitOnP_ne_nil q t)
      exact ⟨[], [], first, after, rfl, hsplit, hsplit⟩
  | cons c s ih =>
      obtain ⟨before, last, first, after, hs, ht, hst⟩ := ih
      by_cases hc : q c = true
      · refine ⟨[] :: before, last, first, after, ?_, ht, ?_⟩
        · rw [List.splitOnP_cons_eq_if_modifyHead, if_pos hc, hs]
          rfl
        · rw [List.cons_append, List.splitOnP_cons_eq_if_modifyHead, if_pos hc, hst]
          rfl
      · rw [List.cons_append, List.splitOnP_cons_eq_if_modifyHead, if_neg hc,
          List.splitOnP_cons_eq_if_modifyHead, if_neg hc, hs, hst]
        cases before with
        | nil => exact ⟨[], c :: last, first, after, rfl, ht, rfl⟩
        | cons line before => exact ⟨(c :: line) :: before, last, first, after, rfl, ht, rfl⟩

theorem splitOn_map {β : Type v} [DecidableEq β] {f : α → β} {sep' : β}
    (hf : ∀ c, f c = sep' ↔ c = sep) (s : List α) :
    (s.map f).splitOn sep' = (s.splitOn sep).map (List.map f) := by
  induction s with
  | nil => rfl
  | cons c s ih =>
      obtain ⟨first, after, hsplit⟩ := List.exists_cons_of_ne_nil (List.splitOn_ne_nil sep s)
      rw [List.map_cons, List.splitOn_cons_eq_if_modifyHead, List.splitOn_cons_eq_if_modifyHead, ih,
        hsplit]
      by_cases hc : c = sep
      · rw [if_pos (beq_iff_eq.mpr ((hf c).mpr hc)), if_pos (beq_iff_eq.mpr hc)]
        rfl
      · rw [if_neg (mt beq_iff_eq.mp (mt (hf c).mp hc)), if_neg (mt beq_iff_eq.mp hc)]
        rfl

theorem splitOn_intercalate {parts : List (List α)} (hne : parts ≠ []) :
    ([sep].intercalate parts).splitOn sep = parts.flatMap (List.splitOn sep) := by
  induction parts with
  | nil => exact absurd rfl hne
  | cons part rest ih =>
      cases rest with
      | nil => simp
      | cons next rest =>
          rw [List.intercalate_cons_cons, List.append_assoc, List.singleton_append,
            List.splitOn_append_cons_self, ih (List.cons_ne_nil _ _), ← List.flatMap_cons]

/-- What adds up over a line break adds up over the lines. -/
theorem sum_lines {F : List α → ℕ} (hF : ∀ xs ys, F (xs ++ sep :: ys) = F xs + F ys) (s : List α) :
    F s = ((s.splitOn sep).map F).sum := by
  suffices hlines : ∀ lines : List (List α), lines ≠ [] →
      F ([sep].intercalate lines) = (lines.map F).sum by
    have hs := hlines (s.splitOn sep) (List.splitOn_ne_nil sep s)
    rwa [List.intercalate_splitOn] at hs
  intro lines hne
  induction lines with
  | nil => exact absurd rfl hne
  | cons line rest ih =>
      cases rest with
      | nil => simp
      | cons next rest =>
          rw [List.intercalate_cons_cons, List.append_assoc, List.singleton_append, hF,
            ih (List.cons_ne_nil _ _), List.map_cons (l := next :: rest), List.sum_cons]

omit [DecidableEq α] in
theorem infix_append_cons {needle : List α} (hsep : sep ∉ needle) (xs ys : List α) :
    needle <:+: xs ++ sep :: ys ↔ needle <:+: xs ∨ needle <:+: ys := by
  constructor
  · intro h
    obtain ⟨before, after, heq⟩ := h
    obtain ⟨more, hxs, -⟩ | ⟨more, hbefore, hmore⟩ := List.append_eq_append_iff.mp heq
    · exact .inl ⟨before, more, hxs.symm⟩
    · cases more with
      | nil =>
          rw [List.append_nil] at hbefore
          exact .inl ⟨before, [], by rw [List.append_nil, hbefore]⟩
      | cons c more =>
          obtain ⟨rfl, hys⟩ := List.cons.inj hmore
          -- The break is before the needle, since it is not in it.
          obtain ⟨gap, hgap, hneedle⟩ | ⟨gap, hgap, hneedle⟩ := List.append_eq_append_iff.mp hbefore
          · refine absurd ?_ hsep
            rw [hneedle]
            exact List.mem_append_right _ List.mem_cons_self
          · cases gap with
            | nil =>
                refine absurd ?_ hsep
                rw [List.nil_append] at hneedle
                rw [← hneedle]
                exact List.mem_cons_self
            | cons c gap =>
                obtain ⟨rfl, rfl⟩ := List.cons.inj hneedle
                exact .inr ⟨gap, after, hys.symm⟩
  · intro h
    obtain h | h := h
    · exact h.trans (List.infix_append' [] xs _)
    · exact h.trans ⟨xs ++ [sep], [], by simp⟩

/-- A needle without breaks is in a text if it is in a line. -/
theorem infix_iff_line {needle : List α} (hsep : sep ∉ needle) (s : List α) :
    needle <:+: s ↔ ∃ line ∈ s.splitOn sep, needle <:+: line := by
  suffices hlines : ∀ lines : List (List α), lines ≠ [] →
      (needle <:+: [sep].intercalate lines ↔ ∃ line ∈ lines, needle <:+: line) by
    have hs := hlines (s.splitOn sep) (List.splitOn_ne_nil sep s)
    rwa [List.intercalate_splitOn] at hs
  intro lines hne
  induction lines with
  | nil => exact absurd rfl hne
  | cons line rest ih =>
      cases rest with
      | nil => simp
      | cons next rest =>
          rw [List.intercalate_cons_cons, List.append_assoc, List.singleton_append,
            infix_append_cons hsep, ih (List.cons_ne_nil _ _)]
          simp only [List.exists_mem_cons_iff]

end Splitting

/-! ### Growing -/

section Lists

variable {β : Type v} {R : β → β → Prop}

theorem sublistForall₂_of_forall {l l' : List β} (hR : ∀ b, R b b) (hsub : l.Sublist l') :
    List.SublistForall₂ R l l' :=
  List.sublistForall₂_iff.mpr ⟨l, List.forall₂_same.mpr fun b _ => hR b, hsub⟩

theorem sublistForall₂_append {l₁ l₁' l₂ l₂' : List β} (hleft : List.SublistForall₂ R l₁ l₁')
    (hright : List.SublistForall₂ R l₂ l₂') : List.SublistForall₂ R (l₁ ++ l₂) (l₁' ++ l₂') := by
  obtain ⟨m₁, hm₁, hsub₁⟩ := List.sublistForall₂_iff.mp hleft
  obtain ⟨m₂, hm₂, hsub₂⟩ := List.sublistForall₂_iff.mp hright
  exact List.sublistForall₂_iff.mpr ⟨m₁ ++ m₂, List.rel_append hm₁ hm₂, hsub₁.append hsub₂⟩

theorem exists_of_mem_sublistForall₂ {l l' : List β} (hsub : List.SublistForall₂ R l l') {b : β}
    (hmem : b ∈ l) : ∃ b' ∈ l', R b b' := by
  induction hsub with
  | nil => cases hmem
  | @cons b₁ b₁' l l' hR _ ih =>
      obtain rfl | hmem := List.mem_cons.mp hmem
      · exact ⟨b₁', List.mem_cons_self, hR⟩
      · obtain ⟨b', hb', hR'⟩ := ih hmem
        exact ⟨b', List.mem_cons_of_mem _ hb', hR'⟩
  | cons_right _ ih =>
      obtain ⟨b', hb', hR'⟩ := ih hmem
      exact ⟨b', List.mem_cons_of_mem _ hb', hR'⟩

end Lists

theorem Grows.refl (s : List α) : Grows sep s s :=
  sublistForall₂_of_forall (fun _ => List.prefix_rfl) (List.Sublist.refl _)

theorem grows_append (s t : List α) : Grows sep s (s ++ t) := by
  obtain ⟨before, last, first, after, hs, -, hst⟩ := splitOnP_append (· == sep) s t
  unfold Grows
  rw [List.splitOn_eq_splitOnP, List.splitOn_eq_splitOnP, hs, hst]
  apply sublistForall₂_append
  · exact sublistForall₂_of_forall (fun _ => List.prefix_rfl) (List.Sublist.refl _)
  · exact .cons (List.prefix_append last first) .nil

theorem Grows.of_prefix (hbegins : s <+: t) : Grows sep s t := by
  obtain ⟨rest, rfl⟩ := hbegins
  exact grows_append s rest

/-- A text grows with the parts that it is joined from. -/
theorem grows_intercalate {parts parts' : List (List α)}
    (hparts : List.SublistForall₂ (Grows sep) parts parts') :
    Grows sep ([sep].intercalate parts) ([sep].intercalate parts') := by
  by_cases hne : parts = []
  · rw [hne]
    exact Grows.of_prefix List.nil_prefix
  have hne' : parts' ≠ [] := by
    rintro rfl
    cases hparts
    exact hne rfl
  unfold Grows
  rw [splitOn_intercalate hne, splitOn_intercalate hne']
  clear hne hne'
  induction hparts with
  | nil => exact .nil
  | cons hpart _ ih => exact sublistForall₂_append hpart ih
  | cons_right _ ih => exact sublistForall₂_append .nil ih

theorem Grows.map {β : Type v} [DecidableEq β] {f : α → β} {sep' : β} (hgrows : Grows sep s t)
    (hf : ∀ c, f c = sep' ↔ c = sep) : Grows sep' (s.map f) (t.map f) := by
  unfold Grows
  rw [splitOn_map hf, splitOn_map hf, List.sublistForall₂_map_left_iff,
    List.sublistForall₂_map_right_iff]
  obtain ⟨lines, hlines, hsub⟩ := List.sublistForall₂_iff.mp hgrows
  exact List.sublistForall₂_iff.mpr ⟨lines, hlines.imp fun _ _ hbegins => hbegins.map f, hsub⟩

/-- A number that adds up over the lines and that a longer line has no less of. -/
theorem Grows.sum_le {F : List α → ℕ} (hgrows : Grows sep s t)
    (hF : ∀ xs ys, F (xs ++ sep :: ys) = F xs + F ys) (hmono : ∀ xs ys, F xs ≤ F (xs ++ ys)) :
    F s ≤ F t := by
  rw [sum_lines hF s, sum_lines hF t]
  apply List.SublistForall₂.sum_le_sum
  · rw [List.sublistForall₂_map_left_iff, List.sublistForall₂_map_right_iff]
    obtain ⟨lines, hlines, hsub⟩ := List.sublistForall₂_iff.mp hgrows
    refine List.sublistForall₂_iff.mpr ⟨lines, hlines.imp fun _ _ hbegins => ?_, hsub⟩
    obtain ⟨rest, rfl⟩ := hbegins
    exact hmono _ rest
  · exact fun _ _ => Nat.zero_le _

theorem Grows.length_le (hgrows : Grows sep s t) : s.length ≤ t.length := by
  have hle : s.length + 1 ≤ t.length + 1 := by
    apply hgrows.sum_le (F := fun xs => xs.length + 1)
    · intro xs ys
      simp only [List.length_append, List.length_cons]
      omega
    · intro xs ys
      simp only [List.length_append]
      omega
  omega

/-- The pieces of a text that are known by their beginnings, where it is cut at line breaks at least. -/
theorem Grows.countP_splitOnP_le {q : α → Bool} {p : List α → Bool} (hgrows : Grows sep s t)
    (hq : q sep = true) (hp : ∀ xs ys, p xs = true → p (xs ++ ys) = true) :
    (s.splitOnP q).countP p ≤ (t.splitOnP q).countP p := by
  apply hgrows.sum_le (F := fun xs => (xs.splitOnP q).countP p)
  · intro xs ys
    simp only [List.splitOnP_append_cons xs ys hq, List.countP_append]
  · intro xs ys
    obtain ⟨before, last, first, after, hxs, -, hxy⟩ := splitOnP_append q xs ys
    simp only [hxs, hxy, List.countP_append, List.countP_cons, List.countP_nil]
    have hlast : (if p last then 1 else 0) ≤ if p (last ++ first) then 1 else 0 := by
      split
      · next h => rw [if_pos (hp last first h)]
      · exact Nat.zero_le _
    omega

theorem Grows.infix_of_infix {needle : List α} (hgrows : Grows sep s t) (hsep : sep ∉ needle)
    (hinside : needle <:+: s) : needle <:+: t := by
  rw [infix_iff_line hsep] at hinside ⊢
  obtain ⟨line, hline, hneedle⟩ := hinside
  obtain ⟨longer, hlonger, hbegins⟩ := exists_of_mem_sublistForall₂ hgrows hline
  exact ⟨longer, hlonger, hneedle.trans hbegins.isInfix⟩

end LineGrowth
