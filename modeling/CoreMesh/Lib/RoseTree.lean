import CoreMesh.Lib.ParentChain

/-!
# Trees from links

A tree is read out of records that name the ones below them. Where the records are those below a parent,
the parents have no cycle and a bound above their number is given, the trees from the roots have every
record once.
-/

universe u v

inductive RoseTree (α : Type u) where
  | node (label : α) (children : List (RoseTree α))

namespace RoseTree

variable {α : Type u} {I : Type v}

def label : RoseTree α → α
  | node a _ => a

def children : RoseTree α → List (RoseTree α)
  | node _ trees => trees

mutual

/-- The tree and the ones in it, each before those below it. -/
def subtrees : RoseTree α → List (RoseTree α)
  | node a trees => node a trees :: subtreesAll trees

def subtreesAll : List (RoseTree α) → List (RoseTree α)
  | [] => []
  | tree :: trees => subtrees tree ++ subtreesAll trees

end

def flatten (tree : RoseTree α) : List α := tree.subtrees.map label

def flattenAll (trees : List (RoseTree α)) : List α := (subtreesAll trees).map label

theorem flatten_node (a : α) (trees : List (RoseTree α)) :
    flatten (node a trees) = a :: flattenAll trees := by
  rw [flatten, subtrees, List.map_cons]
  rfl

theorem flattenAll_cons (tree : RoseTree α) (trees : List (RoseTree α)) :
    flattenAll (tree :: trees) = flatten tree ++ flattenAll trees := by
  rw [flattenAll, subtreesAll, List.map_append]
  rfl

/-- The tree below an identifier, if it is no deeper than the bound. -/
def unfold (next : I → Option (α × List I)) : Nat → I → Option (RoseTree α)
  | 0, _ => none
  | fuel + 1, i =>
      (next i).bind fun record => (record.2.mapM (unfold next fuel)).map (node record.1)

theorem exists_mapM {β : Type u} {f : I → Option β} {P : I → β → Prop} {ids : List I}
    (hids : ∀ i ∈ ids, ∃ b, f i = some b ∧ P i b) : ∃ bs, ids.mapM f = some bs ∧ List.Forall₂ P ids bs := by
  induction ids with
  | nil => exact ⟨[], rfl, .nil⟩
  | cons i ids ih =>
      obtain ⟨b, hb, hP⟩ := hids i List.mem_cons_self
      obtain ⟨bs, hbs, hall⟩ := ih fun j hj => hids j (List.mem_cons_of_mem _ hj)
      refine ⟨b :: bs, ?_, .cons hP hall⟩
      rw [List.mapM_cons, hb, hbs]
      rfl

end RoseTree

namespace ParentChain

variable {I : Type v} {parent : I → Option I}

variable (parent) in
/-- No identifier is above itself. -/
def Acyclic : Prop := ∀ i, ¬Reaches parent (parent i) i

theorem acyclic_of_rank {rank : I → Nat} (hrank : ∀ i j, parent i = some j → rank j < rank i) :
    Acyclic parent := fun i hself => not_cyclic_of_rank hrank (some i) ⟨i, .here, hself⟩

/-- Of two identifiers on one walk one is above the other. -/
theorem Reaches.total {start : Option I} {i j : I} (hi : Reaches parent start i)
    (hj : Reaches parent start j) : i = j ∨ Reaches parent (parent i) j ∨ Reaches parent (parent j) i := by
  induction hi with
  | here =>
      cases hj with
      | here => exact .inl rfl
      | up habove => exact .inr (.inl habove)
  | up habove ih =>
      cases hj with
      | here => exact .inr (.inr habove)
      | up habove' => exact ih habove'

theorem Reaches.above {start : Option I} {i j : I} (hreach : Reaches parent start i)
    (hparent : parent i = some j) : Reaches parent start j := by
  induction hreach with
  | here =>
      refine .up ?_
      rw [hparent]
      exact .here
  | up _ ih => exact .up (ih hparent)

/-- A walk comes to an identifier from the one it begins with or from one right below. -/
theorem Reaches.last {start : Option I} {i : I} (hreach : Reaches parent start i) :
    start = some i ∨ ∃ c, Reaches parent start c ∧ parent c = some i := by
  induction hreach with
  | here => exact .inl rfl
  | @up k _ habove ih =>
      obtain hparent | ⟨c, hc, hparent⟩ := ih
      · exact .inr ⟨k, .here, hparent⟩
      · exact .inr ⟨c, .up hc, hparent⟩

/-- No walk passes two identifiers that have the same parent or are both roots. -/
theorem Acyclic.eq_of_parent_eq (hacyclic : Acyclic parent) {start : Option I} {i j : I}
    (hparent : parent i = parent j) (hi : Reaches parent start i) (hj : Reaches parent start j) : i = j := by
  obtain heq | habove | habove := hi.total hj
  · exact heq
  · rw [hparent] at habove
    exact absurd habove (hacyclic j)
  · rw [← hparent] at habove
    exact absurd habove (hacyclic i)

/-- A walk that ends does so at a root. -/
theorem exists_root_of_chain {fuel : Nat} {start : Option I} {ids : List I}
    (hchain : chain parent fuel start = some ids) {i : I} (hstart : start = some i) :
    ∃ root, Reaches parent start root ∧ parent root = none := by
  subst hstart
  induction fuel generalizing i ids with
  | zero => cases hchain
  | succ fuel ih =>
      obtain ⟨above, habove, -⟩ := Option.map_eq_some_iff.mp hchain
      cases hparent : parent i with
      | none => exact ⟨i, .here, hparent⟩
      | some p =>
          rw [hparent] at habove
          obtain ⟨root, hreach, hroot⟩ := ih habove
          rw [← hparent] at hreach
          exact ⟨root, .up hreach, hroot⟩

section Forest

variable [DecidableEq I] (parent) (ids : List I)

/-- The identifiers with a given parent, or the roots. -/
def below (above : Option I) : List I := ids.filter fun i => parent i = above

/-- What the records have to be like. -/
structure IsForest : Prop where
  nodup : ids.Nodup
  acyclic : Acyclic parent
  parent_mem : ∀ i j, parent i = some j → i ∈ ids ∧ j ∈ ids

variable {parent ids}

theorem mem_below {above : Option I} {i : I} : i ∈ below parent ids above ↔ i ∈ ids ∧ parent i = above := by
  rw [below, List.mem_filter, decide_eq_true_iff]

theorem IsForest.nodup_below (hforest : IsForest parent ids) (above : Option I) :
    (below parent ids above).Nodup := hforest.nodup.filter _

omit [DecidableEq I] in
theorem IsForest.mem_of_reaches (hforest : IsForest parent ids) {start : Option I} {j : I}
    (hreach : Reaches parent start j) : ∀ i, start = some i → i ∈ ids → j ∈ ids := by
  induction hreach with
  | here =>
      intro i heq hi
      rw [Option.some.inj heq]
      exact hi
  | @up k j habove ih =>
      intro i heq hi
      cases hparent : parent k with
      | none =>
          rw [hparent] at habove
          cases habove
      | some p => exact ih p hparent (hforest.parent_mem k p hparent).2

theorem IsForest.exists_root (hforest : IsForest parent ids) {i : I} (hi : i ∈ ids) :
    ∃ root ∈ below parent ids none, Reaches parent (some i) root := by
  have hcyclic : ¬Cyclic parent (some i) := by
    intro hcyclic
    obtain ⟨j, -, hself⟩ := hcyclic
    exact hforest.acyclic j hself
  obtain ⟨above, hchain⟩ := chain_isSome_of_not_cyclic (fun k j hk => (hforest.parent_mem k j hk).1) hcyclic
  obtain ⟨root, hreach, hroot⟩ := exists_root_of_chain hchain rfl
  exact ⟨root, mem_below.mpr ⟨hforest.mem_of_reaches hreach i rfl hi, hroot⟩, hreach⟩

end Forest

end ParentChain

namespace RoseTree

open ParentChain

variable {α : Type u} {I : Type v} [DecidableEq I]

section

variable (parent : I → Option I) (ids : List I) (record : I → α)

/-- The children of every record are the ones below it, in the order of the list. -/
def Linked (tree : RoseTree α) : Prop :=
  ∃ i ∈ ids, tree.label = record i ∧
    tree.children.map label = (below parent ids (some i)).map record

/-- The tree of an identifier: those whose walk passes it, each once. -/
structure Hangs (i : I) (tree : RoseTree α) : Prop where
  label : tree.label = record i
  linked : ∀ t ∈ tree.subtrees, Linked parent ids record t
  flatten : ∃ under : List I, tree.flatten = under.map record ∧ under.Nodup ∧
    ∀ j, j ∈ under ↔ j ∈ ids ∧ Reaches parent (some j) i

end

variable {parent : I → Option I} {ids : List I} {record : I → α}

theorem map_label_of_hangs {tops : List I} {trees : List (RoseTree α)}
    (hall : List.Forall₂ (Hangs parent ids record) tops trees) : trees.map label = tops.map record := by
  induction hall with
  | nil => rfl
  | cons hfirst _ ih => rw [List.map_cons, List.map_cons, hfirst.label, ih]

theorem linked_of_hangs {tops : List I} {trees : List (RoseTree α)}
    (hall : List.Forall₂ (Hangs parent ids record) tops trees) :
    ∀ t ∈ subtreesAll trees, Linked parent ids record t := by
  induction hall with
  | nil =>
      intro t ht
      cases ht
  | cons hfirst _ ih =>
      intro t ht
      rw [subtreesAll, List.mem_append] at ht
      exact ht.elim (hfirst.linked t) (ih t)

/-- Trees of siblings have nothing in common. -/
theorem flattenAll_of_hangs (hacyclic : Acyclic parent) {above : Option I} {tops : List I}
    {trees : List (RoseTree α)} (hall : List.Forall₂ (Hangs parent ids record) tops trees)
    (hnodup : tops.Nodup) (htops : ∀ i ∈ tops, parent i = above) :
    ∃ under : List I, flattenAll trees = under.map record ∧ under.Nodup ∧
      ∀ j, j ∈ under ↔ j ∈ ids ∧ ∃ i ∈ tops, Reaches parent (some j) i := by
  induction hall with
  | nil => exact ⟨[], rfl, .nil, fun j => by simp⟩
  | @cons i tree tops trees hfirst _ ih =>
      obtain ⟨hnew, hrest⟩ := List.nodup_cons.mp hnodup
      obtain ⟨under, hunder, hdistinct, hmem⟩ := hfirst.flatten
      obtain ⟨others, hothers, hdistinct', hmem'⟩ := ih hrest fun j hj => htops j (List.mem_cons_of_mem _ hj)
      refine ⟨under ++ others, ?_, ?_, fun j => ?_⟩
      · rw [flattenAll_cons, hunder, hothers, List.map_append]
      · refine hdistinct.append hdistinct' fun j hj hj' => ?_
        obtain ⟨-, k, hk, hreach⟩ := (hmem' j).mp hj'
        have hsame : parent i = parent k :=
          (htops i List.mem_cons_self).trans (htops k (List.mem_cons_of_mem _ hk)).symm
        rw [hacyclic.eq_of_parent_eq hsame ((hmem j).mp hj).2 hreach] at hnew
        exact hnew hk
      · rw [List.mem_append, hmem, hmem', ← and_or_left]
        simp

/-- The tree below an identifier is read out whole where the bound is above what is not on the path. -/
theorem exists_unfold {next : I → Option (α × List I)} (hforest : IsForest parent ids)
    (hnext : ∀ i ∈ ids, next i = some (record i, below parent ids (some i))) {fuel : Nat} {path : List I}
    {i : I} (hi : i ∈ ids) (hpath : path.Nodup) (hsubset : path ⊆ ids)
    (habove : ∀ j ∈ path, Reaches parent (parent i) j) (hfuel : ids.length < fuel + (path.length + 1)) :
    ∃ tree, unfold next fuel i = some tree ∧ Hangs parent ids record i tree := by
  have hnodup : (i :: path).Nodup :=
    List.nodup_cons.mpr ⟨fun hin => hforest.acyclic i (habove i hin), hpath⟩
  induction fuel generalizing i path with
  | zero =>
      have hle := (List.subperm_of_subset hnodup (List.cons_subset.mpr ⟨hi, hsubset⟩)).length_le
      rw [List.length_cons] at hle
      omega
  | succ fuel ih =>
      have hchildren : ∀ c ∈ below parent ids (some i),
          ∃ tree, unfold next fuel c = some tree ∧ Hangs parent ids record c tree := by
        intro c hc
        obtain ⟨hcin, hparent⟩ := mem_below.mp hc
        have hpassed : ∀ j ∈ i :: path, Reaches parent (parent c) j := by
          intro j hj
          rw [hparent]
          obtain rfl | hj := List.mem_cons.mp hj
          · exact .here
          · exact .up (habove j hj)
        refine @ih (i :: path) c hcin hnodup (List.cons_subset.mpr ⟨hi, hsubset⟩) hpassed ?_ ?_
        · rw [List.length_cons]
          omega
        · exact List.nodup_cons.mpr ⟨fun hin => hforest.acyclic c (hpassed c hin), hnodup⟩
      obtain ⟨trees, htrees, hall⟩ := exists_mapM hchildren
      refine ⟨.node (record i) trees, ?_, rfl, ?_, ?_⟩
      · rw [unfold, hnext i hi, Option.bind_some, htrees]
        rfl
      · intro t ht
        rw [subtrees, List.mem_cons] at ht
        obtain rfl | ht := ht
        · exact ⟨i, hi, rfl, map_label_of_hangs hall⟩
        · exact linked_of_hangs hall t ht
      · obtain ⟨under, hunder, hdistinct, hmem⟩ := flattenAll_of_hangs hforest.acyclic hall
          (hforest.nodup_below _) fun c hc => (mem_below.mp hc).2
        refine ⟨i :: under, by rw [flatten_node, hunder]; rfl, List.nodup_cons.mpr ⟨?_, hdistinct⟩, fun j => ?_⟩
        · intro hin
          obtain ⟨-, c, hc, hreach⟩ := (hmem i).mp hin
          have hparent := (mem_below.mp hc).2
          cases hreach with
          | here => exact hforest.acyclic i (by rw [hparent]; exact .here)
          | up habove' =>
              refine hforest.acyclic c ?_
              rw [hparent]
              exact .up habove'
        · rw [List.mem_cons, hmem]
          constructor
          · intro hj
            obtain rfl | ⟨hin, c, hc, hreach⟩ := hj
            · exact ⟨hi, .here⟩
            · exact ⟨hin, hreach.above (mem_below.mp hc).2⟩
          · intro hj
            obtain ⟨hin, hreach⟩ := hj
            obtain heq | ⟨c, hc, hparent⟩ := hreach.last
            · exact .inl (Option.some.inj heq)
            · exact .inr ⟨hin, c, mem_below.mpr ⟨(hforest.parent_mem c i hparent).1, hparent⟩, hc⟩

/-- The trees of the roots have every record once. -/
theorem exists_unfold_roots {next : I → Option (α × List I)} (hforest : IsForest parent ids)
    (hnext : ∀ i ∈ ids, next i = some (record i, below parent ids (some i))) :
    ∃ trees, (below parent ids none).mapM (unfold next ids.length) = some trees ∧
      trees.map label = (below parent ids none).map record ∧
      (∀ t ∈ subtreesAll trees, Linked parent ids record t) ∧ (flattenAll trees).Perm (ids.map record) := by
  have hroots : ∀ i ∈ below parent ids none,
      ∃ tree, unfold next ids.length i = some tree ∧ Hangs parent ids record i tree := by
    intro i hi
    refine @exists_unfold _ _ _ _ _ _ _ hforest hnext _ [] _ (mem_below.mp hi).1 .nil
      (List.nil_subset _) (fun j hj => absurd hj List.not_mem_nil) ?_
    exact Nat.lt_succ_self _
  obtain ⟨trees, htrees, hall⟩ := exists_mapM hroots
  refine ⟨trees, htrees, map_label_of_hangs hall, linked_of_hangs hall, ?_⟩
  obtain ⟨under, hunder, hdistinct, hmem⟩ := flattenAll_of_hangs hforest.acyclic hall
    (hforest.nodup_below _) fun i hi => (mem_below.mp hi).2
  rw [hunder]
  refine List.Perm.map _ ((List.perm_ext_iff_of_nodup hdistinct hforest.nodup).mpr fun j => ?_)
  rw [hmem]
  exact ⟨And.left, fun hj => ⟨hj, hforest.exists_root hj⟩⟩

end RoseTree
