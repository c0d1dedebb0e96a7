import Mathlib.Data.List.Dedup
import Mathlib.Data.List.Induction
import Mathlib.Data.List.Perm.Basic
import Mathlib.Tactic.Common

/-!
# Groups in the order of their first members

Items are put one after another into the group of their key, and a key that is new opens a group at
the end.
-/

namespace Grouping

universe u v

variable {A : Type u} {K : Type v} [DecidableEq K] (key : A → K)

def add (groups : List (K × List A)) (a : A) : List (K × List A) :=
  if groups.any fun g => g.1 == key a then
    groups.map fun g => if g.1 = key a then (g.1, g.2 ++ [a]) else g
  else groups ++ [(key a, [a])]

def groups (l : List A) : List (K × List A) := l.foldl (add key) []

theorem groups_snoc (l : List A) (a : A) : groups key (l ++ [a]) = add key (groups key l) a := by
  simp [groups, List.foldl_append]

/-- What the groups of a list are: each has the items of its key in their order, and no two have one. -/
structure Complete (groups : List (K × List A)) (l : List A) : Prop where
  distinct : (groups.map Prod.fst).Nodup
  members : ∀ g ∈ groups, g.2 = l.filter fun a => key a = g.1
  nonempty : ∀ g ∈ groups, g.2 ≠ []
  all : ∀ a ∈ l, ∃ g ∈ groups, g.1 = key a

variable {key}

theorem Complete.add {groups : List (K × List A)} {l : List A} (hcomplete : Complete key groups l)
    (a : A) : Complete key (add key groups a) (l ++ [a]) := by
  unfold Grouping.add
  split
  · rename_i hany
    obtain ⟨old, hold, hkey⟩ := List.any_eq_true.mp hany
    have hkey : old.1 = key a := by simpa using hkey
    have hkeys : (groups.map fun g => if g.1 = key a then (g.1, g.2 ++ [a]) else g).map Prod.fst =
        groups.map Prod.fst := by
      rw [List.map_map]
      apply List.map_congr_left
      intro g _
      rw [Function.comp_apply]
      split <;> rfl
    refine ⟨by rw [hkeys]; exact hcomplete.distinct, ?_, ?_, ?_⟩
    · intro g hg
      obtain ⟨g, hmem, rfl⟩ := List.mem_map.mp hg
      split
      · rename_i hsame
        rw [List.filter_append, ← hcomplete.members g hmem]
        simp [hsame]
      · rename_i hother
        have hne : ¬ key a = g.1 := fun heq => hother heq.symm
        rw [List.filter_append, ← hcomplete.members g hmem]
        simp [hne]
    · intro g hg
      obtain ⟨g, hmem, rfl⟩ := List.mem_map.mp hg
      split
      · simp
      · exact hcomplete.nonempty g hmem
    · intro b hb
      have hfound : ∃ g ∈ groups, g.1 = key b := by
        rcases List.mem_append.mp hb with hb | hb
        · exact hcomplete.all b hb
        · rw [List.mem_singleton.mp hb]
          exact ⟨old, hold, hkey⟩
      obtain ⟨g, hg, hgb⟩ := hfound
      refine ⟨_, List.mem_map_of_mem hg, ?_⟩
      split <;> exact hgb
  · rename_i hany
    have hnew : ∀ g ∈ groups, g.1 ≠ key a := by
      intro g hg hsame
      exact hany (List.any_eq_true.mpr ⟨g, hg, by simp [hsame]⟩)
    refine ⟨?_, ?_, ?_, ?_⟩
    · rw [List.map_append, List.map_singleton]
      refine List.Nodup.append hcomplete.distinct (List.nodup_singleton _) ?_
      intro k hk hsame
      obtain ⟨g, hg, rfl⟩ := List.mem_map.mp hk
      exact hnew g hg (List.mem_singleton.mp hsame)
    · intro g hg
      rcases List.mem_append.mp hg with hg | hg
      · have hne : ¬ key a = g.1 := fun heq => hnew g hg heq.symm
        rw [List.filter_append, ← hcomplete.members g hg]
        simp [hne]
      · rw [List.mem_singleton.mp hg]
        have hnone : l.filter (fun b => key b = key a) = [] := by
          rw [List.filter_eq_nil_iff]
          intro b hb hsame
          obtain ⟨g, hg, hgb⟩ := hcomplete.all b hb
          exact hnew g hg (hgb.trans (of_decide_eq_true hsame))
        rw [List.filter_append, hnone]
        simp
    · intro g hg
      rcases List.mem_append.mp hg with hg | hg
      · exact hcomplete.nonempty g hg
      · rw [List.mem_singleton.mp hg]
        simp
    · intro b hb
      rcases List.mem_append.mp hb with hb | hb
      · obtain ⟨g, hg, hgb⟩ := hcomplete.all b hb
        exact ⟨g, List.mem_append_left _ hg, hgb⟩
      · rw [List.mem_singleton.mp hb]
        exact ⟨_, List.mem_append_right _ (List.mem_singleton_self _), rfl⟩

variable (key)

theorem complete_groups (l : List A) : Complete key (groups key l) l := by
  induction l using List.reverseRecOn with
  | nil => exact ⟨List.nodup_nil, by simp [groups], by simp [groups], by simp⟩
  | append_singleton l a ih =>
      rw [groups_snoc]
      exact ih.add a

variable {key}

/-- Complete groups hold every item once. -/
theorem Complete.perm {groups : List (K × List A)} {l : List A} (hcomplete : Complete key groups l) :
    (groups.flatMap Prod.snd).Perm l := by
  induction groups generalizing l with
  | nil =>
      cases l with
      | nil => exact .nil
      | cons a l =>
          obtain ⟨g, hg, -⟩ := hcomplete.all a List.mem_cons_self
          cases hg
  | cons g groups ih =>
      have hdistinct := List.nodup_cons.mp hcomplete.distinct
      have hrest : Complete key groups (l.filter fun a => ¬ key a = g.1) := by
        refine ⟨hdistinct.2, ?_, fun g' hg' => hcomplete.nonempty g' (List.mem_cons_of_mem g hg'), ?_⟩
        · intro g' hg'
          rw [hcomplete.members g' (List.mem_cons_of_mem g hg'), List.filter_filter]
          apply List.filter_congr
          intro a _
          have hne : g'.1 ≠ g.1 := fun heq => hdistinct.1 (heq ▸ List.mem_map_of_mem hg')
          by_cases ha : key a = g'.1
          · simp [ha, hne]
          · simp [ha]
        · intro a ha
          obtain ⟨hmem, hne⟩ := List.mem_filter.mp ha
          obtain ⟨g', hg', hkey⟩ := hcomplete.all a hmem
          rcases List.mem_cons.mp hg' with rfl | hg'
          · simp [hkey] at hne
          · exact ⟨g', hg', hkey⟩
      rw [List.flatMap_cons, hcomplete.members g List.mem_cons_self]
      have hsplit := List.filter_append_perm (fun a => decide (key a = g.1)) l
      refine ((List.Perm.refl _).append (ih hrest)).trans ?_
      simpa using hsplit

end Grouping
