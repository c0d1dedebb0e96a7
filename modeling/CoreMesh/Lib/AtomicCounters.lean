import Mathlib.Algebra.BigOperators.Group.List.Basic
import Mathlib.Algebra.GroupWithZero.Nat
import Mathlib.Algebra.Order.BigOperators.Group.List
import Mathlib.Algebra.Order.Group.Nat
import CoreMesh.Lib.Transition

/-!
# Atomic counters

Calls increment 64-bit counters one after the other, each call in the order of its program, while
readers load them one after the other, all readers in the same order. The steps of the calls and the
readers are interleaved in any way. A counter holds what the history counts, and a reader gets what
the history counted up to its load, so a bound that each program keeps at each of its points holds
between loads, in the order in which they were made.
-/

namespace AtomicCounters

open Transition

universe u v

structure World (K : Type u) (C : Type v) where
  counters : K → UInt64
  /-- The calls begun, each with the number of its increments that were made. -/
  calls : List (C × Nat)
  /-- What each reader has loaded so far. -/
  loaded : Nat → List UInt64

inductive Event (K : Type u) (C : Type v) where
  | call (c : C)
  | increment (i : Nat) (k : K)
  | load (reader : Nat) (k : K)

variable {K : Type u} {C : Type v}

namespace World

def initial : World K C where
  counters _ := 0
  calls := []
  loaded _ := []

def load (w : World K C) (reader : Nat) (k : K) : World K C :=
  { w with loaded := Function.update w.loaded reader (w.loaded reader ++ [w.counters k]) }

theorem loaded_load (w : World K C) (reader reader' : Nat) (k : K) :
    (w.load reader' k).loaded reader =
      if reader = reader' then w.loaded reader ++ [w.counters k] else w.loaded reader := by
  unfold load
  by_cases heq : reader = reader'
  · simp [heq]
  · simp [heq]

end World

variable [DecidableEq K]

def Event.increments (k : K) : Event K C → Bool
  | .increment _ k' => k' == k
  | _ => false

/-- How often a counter was incremented. -/
def counted (k : K) (es : List (Event K C)) : Nat := es.countP (Event.increments k)

theorem counted_append (k : K) (es es' : List (Event K C)) :
    counted k (es ++ es') = counted k es + counted k es' :=
  List.countP_append

theorem counted_snoc_increment (k k' : K) (i : Nat) (es : List (Event K C)) :
    counted k (es ++ [.increment i k']) = counted k es + if k' = k then 1 else 0 := by
  rw [counted_append]
  by_cases hk : k' = k
  · simp [counted, Event.increments, hk]
  · simp [counted, Event.increments, hk]

namespace World

def increment (w : World K C) (i : Nat) (c : C) (made : Nat) (k : K) : World K C :=
  { w with
    counters := Function.update w.counters k (w.counters k + 1)
    calls := w.calls.set i (c, made + 1) }

theorem counters_increment (w : World K C) (i : Nat) (c : C) (made : Nat) (k' k : K) :
    (w.increment i c made k').counters k = if k' = k then w.counters k' + 1 else w.counters k := by
  unfold increment
  by_cases heq : k' = k
  · simp [heq]
  · simp [heq, Ne.symm heq]

/-- `program` gives the increments of a call in order, `loads` the loads of a reader. -/
def next (program : C → List K) (loads : List K) (w : World K C) : Event K C → Option (World K C)
  | .call c => some { w with calls := w.calls ++ [(c, 0)] }
  | .increment i k =>
      match w.calls[i]? with
      | none => none
      | some (c, made) => if (program c)[made]? = some k then some (w.increment i c made k) else none
  | .load reader k =>
      if loads[(w.loaded reader).length]? = some k then some (w.load reader k) else none

variable {program : C → List K} {loads : List K} {w w' : World K C} {es : List (Event K C)}

theorem next_increment {i : Nat} {k : K} (hstep : w.next program loads (.increment i k) = some w') :
    ∃ c made, w.calls[i]? = some (c, made) ∧ (program c)[made]? = some k ∧
      w' = w.increment i c made k := by
  simp only [next] at hstep
  split at hstep
  · cases hstep
  · next c made hcall =>
      split at hstep
      · next hk => exact ⟨c, made, hcall, hk, (Option.some.inj hstep).symm⟩
      · cases hstep

theorem next_load {reader : Nat} {k : K} (hstep : w.next program loads (.load reader k) = some w') :
    loads[(w.loaded reader).length]? = some k ∧ w' = w.load reader k := by
  simp only [next] at hstep
  split at hstep
  · next hk => exact ⟨hk, (Option.some.inj hstep).symm⟩
  · cases hstep

/-! ### What the counters hold -/

/-- The increments of a counter that a call has made. -/
def madeBy (program : C → List K) (k : K) (call : C × Nat) : Nat :=
  ((program call.1).take call.2).count k

theorem madeBy_succ {c : C} {made : Nat} {k' : K} (hk' : (program c)[made]? = some k') (k : K) :
    madeBy program k (c, made + 1) = madeBy program k (c, made) + if k' = k then 1 else 0 := by
  unfold madeBy
  rw [List.take_add_one, hk', Option.toList_some, List.count_append, List.count_singleton]
  simp only [beq_iff_eq]

theorem sum_map_set {α : Type*} (f : α → Nat) {l : List α} {i : Nat} {a : α} (hi : l[i]? = some a)
    (b : α) (extra : Nat) (hb : f b = f a + extra) :
    ((l.set i b).map f).sum = (l.map f).sum + extra := by
  induction l generalizing i with
  | nil => cases hi
  | cons x rest ih =>
      cases i with
      | zero =>
          obtain rfl := Option.some.inj hi
          simp only [List.set_cons_zero, List.map_cons, List.sum_cons]
          omega
      | succ i =>
          simp only [List.set_cons_succ, List.map_cons, List.sum_cons]
          rw [ih (by simpa using hi)]
          omega

/-- What the history counted is what the calls have made, and the counter holds it. -/
theorem counted_eq (hrun : Run (Steps (next program loads)) initial es w) (k : K) :
    counted k es = (w.calls.map (madeBy program k)).sum ∧
      w.counters k = UInt64.ofNat (counted k es) := by
  induction hrun with
  | start => exact ⟨rfl, rfl⟩
  | @snoc es w w' e hrun hstep ih =>
      obtain ⟨hsum, hcounter⟩ := ih
      cases e with
      | call c =>
          obtain rfl := Option.some.inj hstep
          have hcounted : counted k (es ++ [.call c]) = counted k es := by
            rw [counted_append]
            rfl
          rw [hcounted]
          refine ⟨?_, hcounter⟩
          rw [hsum]
          simp [madeBy]
      | increment i k' =>
          obtain ⟨c, made, hcall, hk', rfl⟩ := next_increment hstep
          rw [counted_snoc_increment]
          constructor
          · rw [hsum]
            exact (sum_map_set _ hcall _ _ (madeBy_succ hk' k)).symm
          · rw [counters_increment]
            by_cases heq : k' = k
            · subst heq
              rw [if_pos rfl, if_pos rfl, hcounter]
              simp
            · rw [if_neg heq, if_neg heq]
              exact hcounter
      | load reader k' =>
          obtain ⟨-, rfl⟩ := next_load hstep
          have hcounted : counted k (es ++ [.load reader k']) = counted k es := by
            rw [counted_append]
            rfl
          rw [hcounted]
          exact ⟨hsum, hcounter⟩

/-- Counters of which each program, wherever it stands, has made no more increments than of another
one are together bounded by it. -/
theorem sum_counted_le (hrun : Run (Steps (next program loads)) initial es w) (ks : List K) (k : K)
    (hprogram : ∀ c made, (ks.map fun k' => ((program c).take made).count k').sum ≤
      ((program c).take made).count k) :
    (ks.map fun k' => counted k' es).sum ≤ counted k es := by
  simp only [fun k => (counted_eq hrun k).1]
  induction w.calls with
  | nil => simp
  | cons call rest ih =>
      simp only [List.map_cons, List.sum_cons]
      rw [List.sum_map_add]
      exact Nat.add_le_add (hprogram call.1 call.2) ih

/-! ### What a reader gets -/

/-- A reader keeps what it has loaded. -/
theorem loaded_prefix {init : World K C} (hrun : Run (Steps (next program loads)) init es w)
    (reader : Nat) : init.loaded reader <+: w.loaded reader := by
  induction hrun with
  | start => exact List.prefix_rfl
  | @snoc es w w' e hrun hstep ih =>
      cases e with
      | call c =>
          obtain rfl := Option.some.inj hstep
          exact ih
      | increment i k =>
          obtain ⟨c, made, -, -, rfl⟩ := next_increment hstep
          exact ih
      | load reader' k =>
          obtain ⟨-, rfl⟩ := next_load hstep
          apply ih.trans
          rw [loaded_load]
          split
          · exact List.prefix_append _ _
          · exact List.prefix_rfl

/-- The load of a value the reader has, with what it had before. -/
theorem exists_load (hrun : Run (Steps (next program loads)) initial es w) {reader j : Nat} {k : K}
    (hj : j < (w.loaded reader).length) (hk : loads[j]? = some k) :
    ∃ before after v, es = before ++ .load reader k :: after ∧
      Run (Steps (next program loads)) initial before v ∧
      v.loaded reader = (w.loaded reader).take j ∧ (w.loaded reader)[j]? = some (v.counters k) := by
  induction hrun with
  | start => cases hj
  | @snoc es w w' e hrun hstep ih =>
      have hold (hj : j < (w.loaded reader).length) : ∃ before after v,
          es ++ [e] = before ++ .load reader k :: after ∧
          Run (Steps (next program loads)) initial before v ∧
          v.loaded reader = (w'.loaded reader).take j ∧
          (w'.loaded reader)[j]? = some (v.counters k) := by
        obtain ⟨before, after, v, hes, hv, htake, hvalue⟩ := ih hj
        obtain ⟨more, hmore⟩ := loaded_prefix (Run.single hstep) reader
        refine ⟨before, after ++ [e], v, ?_, hv, ?_, ?_⟩
        · rw [hes, List.append_assoc, List.cons_append]
        · rw [← hmore, List.take_append_of_le_length hj.le]
          exact htake
        · rw [← hmore, List.getElem?_append_left hj]
          exact hvalue
      cases e with
      | call c =>
          obtain rfl := Option.some.inj hstep
          exact hold hj
      | increment i k' =>
          obtain ⟨c, made, -, -, rfl⟩ := next_increment hstep
          exact hold hj
      | load reader' k' =>
          obtain ⟨hk', rfl⟩ := next_load hstep
          rw [loaded_load] at hj
          split at hj
          · next heq =>
              subst heq
              rw [List.length_append, List.length_singleton] at hj
              obtain hlt | hlast := Nat.lt_succ_iff_lt_or_eq.mp hj
              · exact hold hlt
              · rw [← hlast, hk] at hk'
                obtain rfl := Option.some.inj hk'
                refine ⟨es, [], w, rfl, hrun, ?_, ?_⟩
                · rw [loaded_load, if_pos rfl, hlast]
                  simp
                · rw [loaded_load, if_pos rfl, hlast]
                  simp
          · exact hold hj

/-- What a reader got of a counter. -/
def got (loads : List K) (w : World K C) (reader : Nat) (k : K) : UInt64 :=
  ((w.loaded reader)[loads.idxOf k]?).getD 0

/-- A reader that is done made its loads in order and got the counts of the history before each. -/
theorem got_history (hrun : Run (Steps (next program loads)) initial es w) {reader : Nat}
    (hdone : (w.loaded reader).length = loads.length) {k : K} (hk : k ∈ loads) :
    ∃ before after v, es = before ++ .load reader k :: after ∧
      Run (Steps (next program loads)) initial before v ∧
      w.got loads reader k = UInt64.ofNat (counted k before) ∧
      ∀ k', loads.idxOf k' < loads.idxOf k → ∃ earlier between,
        before = earlier ++ .load reader k' :: between ∧
        w.got loads reader k' = UInt64.ofNat (counted k' earlier) := by
  have hlt : loads.idxOf k < (w.loaded reader).length := by
    rw [hdone]
    exact List.idxOf_lt_length_of_mem hk
  obtain ⟨before, after, v, hes, hv, htake, hvalue⟩ :=
    exists_load hrun hlt (List.getElem?_idxOf hk)
  refine ⟨before, after, v, hes, hv, ?_, fun k' hk' => ?_⟩
  · unfold got
    rw [hvalue, Option.getD_some, (counted_eq hv k).2]
  · have hmem : k' ∈ loads := by
      apply List.idxOf_lt_length_iff.mp
      omega
    have hlt' : loads.idxOf k' < (v.loaded reader).length := by
      rw [htake, List.length_take]
      omega
    obtain ⟨earlier, between, u, hbefore, hu, -, hvalue'⟩ :=
      exists_load hv hlt' (List.getElem?_idxOf hmem)
    refine ⟨earlier, between, hbefore, ?_⟩
    rw [htake, List.getElem?_take_of_lt hk'] at hvalue'
    unfold got
    rw [hvalue', Option.getD_some, (counted_eq hu k').2]

variable {reader : Nat} {ks : List K} {k : K}

/-- A counter was at most what the history counts later. -/
theorem toNat_counted_le (earlier rest : List (Event K C)) (k : K) :
    (UInt64.ofNat (counted k earlier)).toNat ≤ counted k (earlier ++ rest) := by
  rw [UInt64.toNat_ofNat', counted_append]
  exact (Nat.mod_le _ _).trans (Nat.le_add_right _ _)

/-- Counters loaded before the one that bounds them. -/
theorem early_bound (hrun : Run (Steps (next program loads)) initial es w)
    (hdone : (w.loaded reader).length = loads.length)
    (hprogram : ∀ c made, (ks.map fun k' => ((program c).take made).count k').sum ≤
      ((program c).take made).count k)
    (hk : k ∈ loads) (hks : ∀ k' ∈ ks, loads.idxOf k' < loads.idxOf k)
    (hfew : counted k es < 2 ^ 64) :
    (ks.map fun k' => (w.got loads reader k').toNat).sum ≤ (w.got loads reader k).toNat := by
  obtain ⟨before, after, v, rfl, hv, hgot, hearlier⟩ := got_history hrun hdone hk
  have hbefore : counted k before < 2 ^ 64 := by
    rw [counted_append] at hfew
    omega
  calc
    (ks.map fun k' => (w.got loads reader k').toNat).sum ≤ (ks.map fun k' => counted k' before).sum := by
      apply List.sum_le_sum
      intro k' hk'
      obtain ⟨earlier, between, rfl, hgot'⟩ := hearlier k' (hks k' hk')
      rw [hgot']
      exact toNat_counted_le earlier _ k'
    _ ≤ counted k before := sum_counted_le hv ks k hprogram
    _ = (w.got loads reader k).toNat := by
      rw [hgot, UInt64.toNat_ofNat', Nat.mod_eq_of_lt hbefore]

/-- Counters loaded after the one that bounds them: they may be ahead of it by what it was
incremented between its load and the last of theirs. -/
theorem late_bound (hrun : Run (Steps (next program loads)) initial es w)
    (hdone : (w.loaded reader).length = loads.length)
    (hprogram : ∀ c made, (ks.map fun k' => ((program c).take made).count k').sum ≤
      ((program c).take made).count k)
    (last : K) (hlast : last ∈ loads) (hk : loads.idxOf k < loads.idxOf last)
    (hks : ∀ k' ∈ ks, loads.idxOf k' < loads.idxOf last ∨ k' = last)
    (hfew : counted k es < 2 ^ 64) :
    ∃ before between after,
      es = before ++ .load reader k :: (between ++ .load reader last :: after) ∧
      (ks.map fun k' => (w.got loads reader k').toNat).sum ≤
        (w.got loads reader k).toNat + counted k between := by
  obtain ⟨before, after, v, rfl, hv, hgot, hearlier⟩ := got_history hrun hdone hlast
  obtain ⟨start, between, hstart, hgotk⟩ := hearlier k hk
  refine ⟨start, between, after, ?_, ?_⟩
  · rw [hstart, List.append_assoc, List.cons_append]
  have hcounted : counted k before = counted k start + counted k between := by
    rw [hstart, counted_append]
    rfl
  have hfits : counted k start < 2 ^ 64 := by
    rw [counted_append, hcounted] at hfew
    omega
  calc
    (ks.map fun k' => (w.got loads reader k').toNat).sum ≤ (ks.map fun k' => counted k' before).sum := by
      apply List.sum_le_sum
      intro k' hk'
      obtain hlt | rfl := hks k' hk'
      · obtain ⟨earlier, rest, rfl, hgot'⟩ := hearlier k' hlt
        rw [hgot']
        exact toNat_counted_le earlier _ k'
      · rw [hgot, UInt64.toNat_ofNat']
        exact Nat.mod_le _ _
    _ ≤ counted k before := sum_counted_le hv ks k hprogram
    _ = (w.got loads reader k).toNat + counted k between := by
      rw [hcounted, hgotk, UInt64.toNat_ofNat', Nat.mod_eq_of_lt hfits]

end World

end AtomicCounters
