import Mathlib.Data.List.Count
import Mathlib.Data.List.Nodup
import Mathlib.Tactic.Common

/-!
# Following parents

A map from identifiers to their parents' makes a forest if no identifier is its own ancestor. The walk
from an identifier upwards is a loop without a bound of its own, so it takes one here, and a rank that
falls along the map says how much is enough.
-/

namespace ParentChain

universe u

variable {I : Type u} (parent : I → Option I)

/-- The identifiers from the start upwards, if the walk ends within the bound. -/
def chain : (fuel : Nat) → (start : Option I) → Option (List I)
  | _, none => some []
  | 0, some _ => none
  | fuel + 1, some i => (chain fuel (parent i)).map (i :: ·)

/-- The walk from the start passes the identifier. -/
inductive Reaches : Option I → I → Prop where
  | here {i : I} : Reaches (some i) i
  | up {i j : I} (habove : Reaches (parent i) j) : Reaches (some i) j

variable {parent}

theorem chain_isSome {rank : I → Nat} (hrank : ∀ i j, parent i = some j → rank j < rank i)
    {fuel : Nat} {start : Option I} (hfuel : ∀ i, start = some i → rank i < fuel) :
    ∃ ids, chain parent fuel start = some ids := by
  induction fuel generalizing start with
  | zero =>
      cases start with
      | none => exact ⟨[], rfl⟩
      | some i => exact absurd (hfuel i rfl) (Nat.not_lt_zero _)
  | succ fuel ih =>
      cases start with
      | none => exact ⟨[], rfl⟩
      | some i =>
          obtain ⟨ids, hids⟩ := ih fun j hj => by
            have hlt := hrank i j hj
            have hi := hfuel i rfl
            omega
          exact ⟨i :: ids, by rw [chain, hids]; rfl⟩

theorem countP_lt_countP {p q : I → Bool} {l : List I} (hle : ∀ i ∈ l, p i = true → q i = true)
    {i : I} (hi : i ∈ l) (hp : p i = false) (hq : q i = true) : l.countP p < l.countP q := by
  obtain ⟨before, after, rfl⟩ := List.append_of_mem hi
  have hbefore : before.countP p ≤ before.countP q :=
    List.countP_mono_left fun k hk => hle k (List.mem_append_left _ hk)
  have hafter : after.countP p ≤ after.countP q :=
    List.countP_mono_left fun k hk => hle k (by simp [hk])
  rw [List.countP_append, List.countP_append, List.countP_cons_of_pos hq,
    List.countP_cons_of_neg (by simp [hp])]
  omega

/-- A rank bounded by the number of identifiers that have a parent, from any rank. -/
theorem chain_isSome_length {rank : I → Nat} (hrank : ∀ i j, parent i = some j → rank j < rank i)
    [DecidableEq I] {ids : List I} (hids : ∀ i j, parent i = some j → i ∈ ids) {i : I} (hi : i ∈ ids) :
    ∃ above, chain parent ids.length (parent i) = some above := by
  let below (i : I) : Nat := if i ∈ ids then ids.countP (fun k => rank k < rank i) + 1 else 0
  have hbelow : ∀ i j, parent i = some j → below j < below i := by
    intro i j hj
    have hlt := hrank i j hj
    have hmem := hids i j hj
    simp only [below, hmem, if_true]
    split
    · rename_i hjmem
      have hcount : ids.countP (fun k => rank k < rank j) < ids.countP (fun k => rank k < rank i) := by
        refine countP_lt_countP ?_ hjmem (by simp) (by simpa using hlt)
        intro k _ hk
        simp only [decide_eq_true_eq] at hk ⊢
        omega
      omega
    · omega
  have hlength : below i ≤ ids.length := by
    have hcount : ids.countP (fun k => rank k < rank i) < ids.length :=
      List.countP_lt_length_iff.mpr ⟨i, hi, by simp⟩
    simp only [below, hi, if_true]
    omega
  refine chain_isSome hbelow fun j hj => ?_
  have hlt := hbelow i j hj
  omega

theorem rank_le_of_reaches {rank : I → Nat} (hrank : ∀ i j, parent i = some j → rank j < rank i)
    {start : Option I} {j : I} (hreach : Reaches parent start j) :
    ∀ i, start = some i → rank j ≤ rank i := by
  induction hreach with
  | here =>
      rintro i ⟨⟩
      exact Nat.le_refl _
  | @up k j habove ih =>
      rintro i ⟨⟩
      cases hparent : parent k with
      | none =>
          rw [hparent] at habove
          cases habove
      | some p =>
          have hlt := hrank k p hparent
          have hle := ih p hparent
          omega

theorem mem_chain {fuel : Nat} {start : Option I} {ids : List I}
    (hchain : chain parent fuel start = some ids) (j : I) : j ∈ ids ↔ Reaches parent start j := by
  induction fuel generalizing start ids with
  | zero =>
      cases start with
      | none =>
          obtain rfl := Option.some.inj hchain
          exact ⟨fun hj => (List.not_mem_nil hj).elim, fun hreach => by cases hreach⟩
      | some i => cases hchain
  | succ fuel ih =>
      cases start with
      | none =>
          obtain rfl := Option.some.inj hchain
          exact ⟨fun hj => (List.not_mem_nil hj).elim, fun hreach => by cases hreach⟩
      | some i =>
          obtain ⟨above, habove, rfl⟩ := Option.map_eq_some_iff.mp hchain
          rw [List.mem_cons, ih habove]
          constructor
          · rintro (rfl | hreach)
            · exact .here
            · exact .up hreach
          · intro hreach
            cases hreach with
            | here => exact .inl rfl
            | up habove => exact .inr habove

/-! ### Walks that do not end -/

variable (parent) in
/-- The walk from the start comes to an identifier that is above itself. -/
def Cyclic (start : Option I) : Prop := ∃ i, Reaches parent start i ∧ Reaches parent (parent i) i

theorem chain_unique {fuel fuel' : Nat} {start : Option I} {ids ids' : List I}
    (hchain : chain parent fuel start = some ids) (hchain' : chain parent fuel' start = some ids') :
    ids = ids' := by
  induction fuel generalizing fuel' start ids ids' with
  | zero =>
      cases start with
      | none =>
          cases fuel' <;> exact (Option.some.inj hchain).symm.trans (Option.some.inj hchain')
      | some i => cases hchain
  | succ fuel ih =>
      cases start with
      | none =>
          cases fuel' <;> exact (Option.some.inj hchain).symm.trans (Option.some.inj hchain')
      | some i =>
          cases fuel' with
          | zero => cases hchain'
          | succ fuel' =>
              obtain ⟨above, habove, rfl⟩ := Option.map_eq_some_iff.mp hchain
              obtain ⟨above', habove', rfl⟩ := Option.map_eq_some_iff.mp hchain'
              rw [ih habove habove']

/-- From an identifier on the walk upwards less is left. -/
theorem chain_above {fuel : Nat} {start : Option I} {ids : List I} {i : I}
    (hchain : chain parent fuel start = some ids) (hreach : Reaches parent start i) :
    ∃ fuel' above, chain parent fuel' (parent i) = some above ∧ above.length < ids.length := by
  induction hreach generalizing fuel ids with
  | here =>
      cases fuel with
      | zero => cases hchain
      | succ fuel =>
          obtain ⟨above, habove, rfl⟩ := Option.map_eq_some_iff.mp hchain
          exact ⟨fuel, above, habove, Nat.lt_succ_self _⟩
  | up habove ih =>
      cases fuel with
      | zero => cases hchain
      | succ fuel =>
          obtain ⟨rest, hrest, rfl⟩ := Option.map_eq_some_iff.mp hchain
          obtain ⟨fuel', above, hfound, hlt⟩ := ih hrest
          exact ⟨fuel', above, hfound, Nat.lt_succ_of_lt hlt⟩

theorem not_cyclic_of_chain {fuel : Nat} {start : Option I} {ids : List I}
    (hchain : chain parent fuel start = some ids) : ¬Cyclic parent start := by
  intro hcyclic
  obtain ⟨i, hreach, hself⟩ := hcyclic
  obtain ⟨fuel', above, habove, -⟩ := chain_above hchain hreach
  obtain ⟨fuel'', above', habove', hlt⟩ := chain_above habove hself
  rw [chain_unique habove habove'] at hlt
  exact Nat.lt_irrefl _ hlt

theorem not_cyclic_of_rank {rank : I → Nat} (hrank : ∀ i j, parent i = some j → rank j < rank i)
    (start : Option I) : ¬Cyclic parent start := by
  intro hcyclic
  obtain ⟨i, -, hself⟩ := hcyclic
  cases hparent : parent i with
  | none =>
      rw [hparent] at hself
      cases hself
  | some j =>
      have hlt := hrank i j hparent
      have hle := rank_le_of_reaches hrank hself j hparent
      omega

/-- The identifiers of a walk that the bound cuts off, each above the ones before it. -/
theorem exists_path_of_chain_eq_none {fuel : Nat} {start : Option I}
    (hchain : chain parent fuel start = none) :
    ∃ path : List I, path.length = fuel + 1 ∧
      path.Pairwise (fun i j => Reaches parent (parent i) j) ∧
      (∀ i ∈ path, Reaches parent start i) ∧ ∀ i ∈ path.dropLast, ∃ j, parent i = some j := by
  induction fuel generalizing start with
  | zero =>
      cases start with
      | none => cases hchain
      | some i =>
          refine ⟨[i], rfl, List.pairwise_singleton _ i, ?_, fun j hj => by cases hj⟩
          intro j hj
          rw [List.mem_singleton.mp hj]
          exact .here
  | succ fuel ih =>
      cases start with
      | none => cases hchain
      | some i =>
          obtain ⟨path, hlength, hpath, hreached, hinner⟩ := ih (Option.map_eq_none_iff.mp hchain)
          have hne : path ≠ [] := List.ne_nil_of_length_eq_add_one hlength
          refine ⟨i :: path, by rw [List.length_cons, hlength],
            List.pairwise_cons.mpr ⟨hreached, hpath⟩, ?_, ?_⟩
          · intro j hj
            rcases List.mem_cons.mp hj with rfl | hj
            · exact .here
            · exact .up (hreached j hj)
          · intro j hj
            rw [List.dropLast_cons_of_ne_nil hne] at hj
            rcases List.mem_cons.mp hj with rfl | hj
            · cases hparent : parent j with
              | none =>
                  have hfirst := hreached _ (List.head_mem hne)
                  rw [hparent] at hfirst
                  cases hfirst
              | some k => exact ⟨k, rfl⟩
            · exact hinner j hj

/-- Without a cycle the walk passes no identifier twice, so a bound above their number is enough. -/
theorem chain_isSome_of_not_cyclic {ids : List I} (hids : ∀ i j, parent i = some j → i ∈ ids)
    {start : Option I} (hcyclic : ¬Cyclic parent start) :
    ∃ above, chain parent (ids.length + 1) start = some above := by
  cases hchain : chain parent (ids.length + 1) start with
  | some above => exact ⟨above, rfl⟩
  | none =>
      exfalso
      obtain ⟨path, hlength, hpath, hreached, hinner⟩ := exists_path_of_chain_eq_none hchain
      have hnodup : path.Nodup := by
        refine hpath.imp_of_mem ?_
        intro i j hi _ habove heq
        rw [← heq] at habove
        exact hcyclic ⟨i, hreached i hi, habove⟩
      have hsubset : path.dropLast ⊆ ids := by
        intro i hi
        obtain ⟨j, hj⟩ := hinner i hi
        exact hids i j hj
      have hle := (List.subperm_of_subset (hnodup.sublist path.dropLast_sublist) hsubset).length_le
      rw [List.length_dropLast, hlength] at hle
      omega

/-- No identifier stands twice on a walk that ends. -/
theorem nodup_of_chain {fuel : Nat} {start : Option I} {ids : List I}
    (hchain : chain parent fuel start = some ids) : ids.Nodup := by
  induction fuel generalizing start ids with
  | zero =>
      cases start with
      | none =>
          obtain rfl := Option.some.inj hchain
          exact List.nodup_nil
      | some i => cases hchain
  | succ fuel ih =>
      cases start with
      | none =>
          obtain rfl := Option.some.inj hchain
          exact List.nodup_nil
      | some i =>
          obtain ⟨above, habove, rfl⟩ := Option.map_eq_some_iff.mp hchain
          refine List.nodup_cons.mpr ⟨fun hi => ?_, ih habove⟩
          exact not_cyclic_of_chain hchain ⟨i, .here, (mem_chain habove i).mp hi⟩

/-! ### Walks that stop where they have been -/

/-- The walk among the given identifiers, which stops before one that it has visited. -/
def climb [DecidableEq I] (parent : I → Option I) (ids visited : List I) : (start : Option I) → List I
  | none => []
  | some i =>
      if _h : i ∈ ids ∧ i ∉ visited then i :: climb parent ids (i :: visited) (parent i) else []
termination_by (ids.filter (· ∉ visited)).length
decreasing_by
  rw [← List.countP_eq_length_filter, ← List.countP_eq_length_filter]
  apply countP_lt_countP _ _h.1
  · simp
  · simpa using _h.2
  · intro k _ hk
    simp only [decide_eq_true_eq, List.mem_cons, not_or] at hk ⊢
    exact hk.2

/-- Where there is no cycle it is the walk along the parents among the identifiers. -/
theorem climb_eq_of_chain [DecidableEq I] {ids visited : List I} {fuel : Nat} {start : Option I}
    {above : List I}
    (hchain : chain (fun i => (parent i).filter (· ∈ ids)) fuel (start.filter (· ∈ ids)) = some above)
    (hnew : ∀ i ∈ above, i ∉ visited) : climb parent ids visited start = above := by
  induction fuel generalizing visited start above with
  | zero =>
      cases hstart : start.filter (· ∈ ids) with
      | none =>
          rw [hstart] at hchain
          obtain rfl := Option.some.inj hchain
          cases start with
          | none => rw [climb]
          | some i =>
              have hi : i ∉ ids := by simpa [Option.filter] using hstart
              rw [climb, dif_neg fun h => hi h.1]
      | some i =>
          rw [hstart] at hchain
          cases hchain
  | succ fuel ih =>
      cases start with
      | none =>
          obtain rfl := Option.some.inj hchain
          rw [climb]
      | some i =>
          by_cases hi : i ∈ ids
          · have hstart : (some i).filter (· ∈ ids) = some i := by simp [Option.filter, hi]
            have hnodup := nodup_of_chain hchain
            rw [hstart] at hchain
            obtain ⟨rest, hrest, rfl⟩ := Option.map_eq_some_iff.mp hchain
            have hnot : i ∉ rest := (List.nodup_cons.mp hnodup).1
            rw [climb, dif_pos ⟨hi, hnew i List.mem_cons_self⟩, ih hrest]
            intro j hj hvisited
            rcases List.mem_cons.mp hvisited with rfl | hvisited
            · exact hnot hj
            · exact hnew j (List.mem_cons_of_mem i hj) hvisited
          · have hstart : (some i).filter (· ∈ ids) = none := by simp [Option.filter, hi]
            rw [hstart] at hchain
            obtain rfl := Option.some.inj hchain
            rw [climb, dif_neg fun h => hi h.1]

end ParentChain
