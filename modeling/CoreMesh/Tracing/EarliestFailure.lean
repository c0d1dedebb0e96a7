import Mathlib.Data.List.MinMax
import Mathlib.Data.List.Sort
import CoreMesh.Lib.StableSort
import CoreMesh.Tracing.Analyzer

/-!
# The earliest failing step

A span without a step index of its own belongs to the step of the nearest span above it that has one.
The analyzer drops the candidates that have another below them and orders the rest by their own
indices, so it finds the earliest failing step exactly if that step kept a candidate with an index, or
no candidate with an index is left and one of that step's starts first.
-/

namespace CoreMesh.Tracing

open ParentChain

section Forest

variable {F : Type}

/-- Spans with identifiers of their own, none of which is its own ancestor. -/
structure Forest (spans : List (Span F)) : Prop where
  unique : (spans.map Span.spanId).Nodup
  acyclic : ∃ rank : String → Nat,
    ∀ span ∈ spans, ∀ above, span.parent = some above → rank above < rank span.spanId

/-- The identifiers above a span, the nearest first. -/
def above (spans : List (Span F)) (span : Span F) : List String :=
  (ancestors spans span.parent).getD []

/-- The step of the nearest span, from this one upwards, that has an index. -/
def stepOf (spans : List (Span F)) (span : Span F) : WithTop Nat :=
  match (span :: (above spans span).filterMap (spanAt spans)).findSome? Span.stepIndex with
  | some index => WithTop.some index
  | none => ⊤

/-- The order of spans with equal sequence keys. -/
def Before (spans : List (Span F)) (s t : Span F) : Prop :=
  s.startTime < t.startTime ∨
    s.startTime = t.startTime ∧
      ((above spans t).length < (above spans s).length ∨
        (above spans s).length = (above spans t).length ∧ s.spanId < t.spanId)

/-- No candidate is below this one. -/
def Innermost (spans : List (Span F)) (candidates : List (Candidate F)) (item : Candidate F) : Prop :=
  ∀ other ∈ candidates, item.span.spanId ∉ above spans other.span

/-- No candidate belongs to an earlier step than the span. -/
def EarliestFailing (spans : List (Span F)) (candidates : List (Candidate F)) (span : Span F) : Prop :=
  ∀ item ∈ candidates, stepOf spans span ≤ stepOf spans item.span

namespace Forest

variable {spans : List (Span F)}

theorem spanAt_of_mem (forest : Forest spans) {span : Span F} (hspan : span ∈ spans) :
    spanAt spans span.spanId = some span := by
  obtain ⟨found, hfound⟩ : ∃ found, spanAt spans span.spanId = some found := by
    rw [← Option.isSome_iff_exists, spanAt, List.find?_isSome]
    exact ⟨span, List.mem_reverse.mpr hspan, by simp⟩
  have hid : found.spanId = span.spanId := by simpa using List.find?_some hfound
  have hmem : found ∈ spans := List.mem_reverse.mp (List.mem_of_find?_eq_some hfound)
  rw [hfound, List.inj_on_of_nodup_map forest.unique hmem hspan hid]

theorem parents_of_mem (forest : Forest spans) {span : Span F} (hspan : span ∈ spans) :
    parents spans span.spanId = span.parent := by
  rw [parents, forest.spanAt_of_mem hspan]
  rfl

theorem spanId_mem_of_parents {i j : String} (hparent : parents spans i = some j) :
    ∃ span ∈ spans, span.spanId = i ∧ span.parent = some j := by
  obtain ⟨span, hfound, hj⟩ := Option.bind_eq_some_iff.mp hparent
  exact ⟨span, List.mem_reverse.mp (List.mem_of_find?_eq_some hfound),
    by simpa using List.find?_some hfound, hj⟩

theorem rank_lt (forest : Forest spans) : ∃ rank : String → Nat,
    ∀ i j, parents spans i = some j → rank j < rank i := by
  obtain ⟨rank, hrank⟩ := forest.acyclic
  refine ⟨rank, fun i j hparent => ?_⟩
  obtain ⟨span, hspan, rfl, hj⟩ := spanId_mem_of_parents hparent
  exact hrank span hspan j hj

/-- The loops over the spans above one end. -/
theorem ancestors_eq (forest : Forest spans) {span : Span F} (hspan : span ∈ spans) :
    ancestors spans span.parent = some (above spans span) := by
  obtain ⟨rank, hrank⟩ := forest.rank_lt
  have hids : ∀ i j, parents spans i = some j → i ∈ spans.map Span.spanId := by
    intro i j hparent
    obtain ⟨child, hchild, rfl, -⟩ := spanId_mem_of_parents hparent
    exact List.mem_map_of_mem hchild
  obtain ⟨ids, hchain⟩ := chain_isSome_length hrank hids (List.mem_map_of_mem hspan)
  rw [List.length_map, forest.parents_of_mem hspan] at hchain
  have hwalk : ancestors spans span.parent = some ids := hchain
  rw [above, hwalk]
  rfl

theorem rank_lt_of_mem_above (forest : Forest spans) : ∃ rank : String → Nat,
    ∀ span ∈ spans, ∀ id ∈ above spans span, rank id < rank span.spanId := by
  obtain ⟨rank, hrank⟩ := forest.rank_lt
  refine ⟨rank, fun span hspan id hid => ?_⟩
  have hreach := (mem_chain (forest.ancestors_eq hspan) id).mp hid
  cases hparent : span.parent with
  | none =>
      rw [hparent] at hreach
      cases hreach
  | some p =>
      have hlt := hrank span.spanId p ((forest.parents_of_mem hspan).trans hparent)
      have hle := rank_le_of_reaches hrank hreach p hparent
      omega

/-! ### The spans in order -/

theorem inOrder_perm : (inOrder spans).Perm spans := List.mergeSort_perm _ _

theorem mem_inOrder {span : Span F} : span ∈ inOrder spans ↔ span ∈ spans :=
  inOrder_perm.mem_iff

theorem ordered (forest : Forest spans) : Forest (inOrder spans) where
  unique := (inOrder_perm.map _).nodup_iff.mpr forest.unique
  acyclic := by
    obtain ⟨rank, hrank⟩ := forest.acyclic
    exact ⟨rank, fun span hspan => hrank span (mem_inOrder.mp hspan)⟩

theorem spanAt_inOrder (forest : Forest spans) : spanAt (inOrder spans) = spanAt spans := by
  funext id
  by_cases hid : ∃ span ∈ spans, span.spanId = id
  · obtain ⟨span, hspan, rfl⟩ := hid
    rw [forest.spanAt_of_mem hspan, forest.ordered.spanAt_of_mem (mem_inOrder.mpr hspan)]
  · have hnone : ∀ {l : List (Span F)}, (∀ span ∈ l, span ∈ spans) → spanAt l id = none := by
      intro l hl
      rw [spanAt, List.find?_eq_none]
      intro span hspan heq
      exact hid ⟨span, hl span (List.mem_reverse.mp hspan), by simpa using heq⟩
    rw [hnone fun span hspan => mem_inOrder.mp hspan, hnone fun _ hspan => hspan]

theorem parents_inOrder (forest : Forest spans) : parents (inOrder spans) = parents spans := by
  funext id
  rw [parents, parents, forest.spanAt_inOrder]

theorem ancestors_inOrder (forest : Forest spans) (start : Option String) :
    ancestors (inOrder spans) start = ancestors spans start := by
  rw [ancestors, ancestors, forest.parents_inOrder, inOrder_perm.length_eq]

end Forest

/-! ### The order of the spans -/

/-- The order by `start_time` and `span_id` of spans whose identifiers differ. -/
def StartsFirst (s t : Span F) : Prop :=
  s.startTime < t.startTime ∨ s.startTime = t.startTime ∧ s.spanId < t.spanId

theorem startsBy_iff {s t : Span F} :
    startsBy s t = true ↔
      s.startTime < t.startTime ∨ s.startTime = t.startTime ∧ s.spanId ≤ t.spanId := by
  simp [startsBy]

theorem startsBy_trans (s t u : Span F) (hst : startsBy s t) (htu : startsBy t u) : startsBy s u := by
  rw [startsBy_iff] at hst htu ⊢
  rcases hst with hst | ⟨hst, hid⟩
  · rcases htu with htu | ⟨htu, -⟩
    · exact .inl (lt_trans hst htu)
    · exact .inl (htu ▸ hst)
  · rcases htu with htu | ⟨htu, hid'⟩
    · exact .inl (hst ▸ htu)
    · exact .inr ⟨hst.trans htu, le_trans hid hid'⟩

theorem startsBy_total (s t : Span F) : startsBy s t || startsBy t s := by
  rw [Bool.or_eq_true, startsBy_iff, startsBy_iff]
  rcases lt_trichotomy s.startTime t.startTime with h | h | h
  · exact .inl (.inl h)
  · rcases le_total s.spanId t.spanId with hid | hid
    · exact .inl (.inr ⟨h, hid⟩)
    · exact .inr (.inr ⟨h.symm, hid⟩)
  · exact .inr (.inl h)

theorem inOrder_pairwise {spans : List (Span F)} (forest : Forest spans) :
    (inOrder spans).Pairwise StartsFirst := by
  have hsorted := List.pairwise_mergeSort startsBy_trans startsBy_total spans
  have hdistinct := List.pairwise_map.mp forest.ordered.unique
  refine (hsorted.and hdistinct).imp fun {s t} h => ?_
  rcases startsBy_iff.mp h.1 with hlt | ⟨heq, hle⟩
  · exact .inl hlt
  · exact .inr ⟨heq, lt_of_le_of_ne hle h.2⟩

end Forest

/-! ### The candidates -/

section Candidates

variable {F : Type} {spans : List (Span F)}

instance (candidates : List (Candidate F)) (item : Candidate F) :
    Decidable (Innermost spans candidates item) :=
  inferInstanceAs (Decidable (∀ other ∈ candidates, item.span.spanId ∉ above spans other.span))

instance (candidates : List (Candidate F)) (span : Span F) :
    Decidable (EarliestFailing spans candidates span) :=
  inferInstanceAs (Decidable (∀ item ∈ candidates, stepOf spans span ≤ stepOf spans item.span))

theorem mapM_eq_map {α β : Type} {f : α → Option β} {g : α → β} {l : List α}
    (hf : ∀ x ∈ l, f x = some (g x)) : l.mapM f = some (l.map g) := by
  induction l with
  | nil => rfl
  | cons x rest ih =>
      rw [List.mapM_cons, hf x List.mem_cons_self, ih fun y hy => hf y (List.mem_cons_of_mem x hy)]
      rfl

/-- What is kept are the candidates without another below them. -/
theorem removeWrapperDuplicates_eq (forest : Forest spans) {candidates : List (Candidate F)}
    (hmem : ∀ item ∈ candidates, item.span ∈ spans) :
    removeWrapperDuplicates candidates (inOrder spans) =
      some (candidates.filter fun item => Innermost spans candidates item) := by
  have habove : ∀ item ∈ candidates,
      ancestors (inOrder spans) (parents (inOrder spans) item.span.spanId) =
        some (above spans item.span) := by
    intro item hitem
    rw [forest.parents_inOrder, forest.parents_of_mem (hmem item hitem), forest.ancestors_inOrder]
    exact forest.ancestors_eq (hmem item hitem)
  rw [removeWrapperDuplicates, mapM_eq_map habove]
  refine congrArg some (List.filter_congr fun item hitem => ?_)
  have hid : item.span.spanId ∈ candidates.map fun item => item.span.spanId :=
    List.mem_map_of_mem hitem
  rw [decide_eq_decide, List.mem_filter]
  constructor
  · intro hnone other hother hin
    have hflat : item.span.spanId ∈ (candidates.map fun item => above spans item.span).flatten :=
      List.mem_flatten.mpr ⟨_, List.mem_map_of_mem hother, hin⟩
    exact hnone ⟨hflat, by simpa using hid⟩
  · rintro hinner ⟨hflat, -⟩
    obtain ⟨_, hids, hin⟩ := List.mem_flatten.mp hflat
    obtain ⟨other, hother, rfl⟩ := List.mem_map.mp hids
    exact hinner other hother hin

/-- Of the candidates one is as far from the root as any. -/
theorem exists_innermost (forest : Forest spans) {candidates : List (Candidate F)}
    (hmem : ∀ item ∈ candidates, item.span ∈ spans) (hsome : candidates ≠ []) :
    ∃ item ∈ candidates, Innermost spans candidates item := by
  obtain ⟨rank, hrank⟩ := forest.rank_lt_of_mem_above
  obtain ⟨item, hitem⟩ : ∃ item, item ∈ candidates.argmax fun item => rank item.span.spanId := by
    cases hmax : candidates.argmax fun item => rank item.span.spanId with
    | none => exact absurd (List.argmax_eq_none.mp hmax) hsome
    | some item => exact ⟨item, rfl⟩
  refine ⟨item, List.argmax_mem hitem, fun other hother hin => ?_⟩
  have hle := List.le_of_mem_argmax hother hitem
  have hlt := hrank other.span (hmem other hother) _ hin
  omega

/-! ### The order of the candidates -/

theorem stepOf_of_index {span : Span F} {index : Nat} (hindex : span.stepIndex = some index) :
    stepOf spans span = sequence span := by
  simp only [stepOf, sequence, List.findSome?_cons, hindex]

theorem sequence_eq_top {span : Span F} : sequence span = ⊤ ↔ span.stepIndex = none := by
  cases h : span.stepIndex with
  | none => simp [sequence, h]
  | some index => simp [sequence, h]

theorem Before.asymm {s t : Span F} (hst : Before spans s t) : ¬ Before spans t s := by
  intro hts
  rcases hst with hlt | ⟨heq, hdeep | ⟨hlevel, hid⟩⟩ <;>
    rcases hts with hlt' | ⟨heq', hdeep' | ⟨hlevel', hid'⟩⟩
  · exact lt_asymm hlt hlt'
  · exact lt_irrefl _ (heq' ▸ hlt)
  · exact lt_irrefl _ (heq' ▸ hlt)
  · exact lt_irrefl _ (heq ▸ hlt')
  · omega
  · omega
  · exact lt_irrefl _ (heq ▸ hlt')
  · omega
  · exact lt_asymm hid hid'

/-- A candidate of this span is sorted before one of the other. -/
def Precedes (spans : List (Span F)) (s t : Span F) : Prop :=
  sequence s < sequence t ∨ sequence s = sequence t ∧ Before spans s t

theorem Precedes.sequence_le {s t : Span F} (hst : Precedes spans s t) : sequence s ≤ sequence t := by
  rcases hst with hlt | ⟨hseq, -⟩
  · exact hlt.le
  · exact hseq.le

/-- A span without an index precedes only such spans. -/
theorem Precedes.of_index_none {s t : Span F} (hst : Precedes spans s t) (hnone : s.stepIndex = none) :
    t.stepIndex = none ∧ Before spans s t := by
  have htop : sequence s = ⊤ := sequence_eq_top.mpr hnone
  rcases hst with hlt | ⟨hseq, hbefore⟩
  · exact absurd (htop ▸ hlt) not_top_lt
  · exact ⟨sequence_eq_top.mp (hseq ▸ htop), hbefore⟩

/-- A span whose key is at most that of an earliest failing one with an index is of the same step. -/
theorem EarliestFailing.of_sequence_le {candidates : List (Candidate F)} {s t : Span F}
    (hearliest : EarliestFailing spans candidates t) (hindexed : t.stepIndex.isSome)
    (hle : sequence s ≤ sequence t) : EarliestFailing spans candidates s := by
  obtain ⟨index, hindex⟩ := Option.isSome_iff_exists.mp hindexed
  cases hfirst : s.stepIndex with
  | none =>
      rw [sequence_eq_top.mpr hfirst, top_le_iff] at hle
      rw [sequence_eq_top.mp hle] at hindex
      cases hindex
  | some firstIndex =>
      intro other hother
      have hstep := hearliest other hother
      rw [stepOf_of_index hindex] at hstep
      rw [stepOf_of_index hfirst]
      exact le_trans hle hstep

theorem comesBy_iff {x y : Candidate F × Nat} :
    comesBy x y = true ↔
      sequence x.1.span < sequence y.1.span ∨ sequence x.1.span = sequence y.1.span ∧
        (x.1.span.startTime < y.1.span.startTime ∨
          x.1.span.startTime = y.1.span.startTime ∧ y.2 ≤ x.2) := by
  simp [comesBy]

theorem comesBy_trans (x y z : Candidate F × Nat) (hxy : comesBy x y) (hyz : comesBy y z) :
    comesBy x z := by
  rw [comesBy_iff] at hxy hyz ⊢
  rcases hxy with hxy | ⟨hxy, hstart⟩
  · rcases hyz with hyz | ⟨hyz, -⟩
    · exact .inl (lt_trans hxy hyz)
    · exact .inl (hyz ▸ hxy)
  · rcases hyz with hyz | ⟨hyz, hstart'⟩
    · exact .inl (hxy ▸ hyz)
    · refine .inr ⟨hxy.trans hyz, ?_⟩
      rcases hstart with hlt | ⟨heq, hdeep⟩
      · rcases hstart' with hlt' | ⟨heq', -⟩
        · exact .inl (lt_trans hlt hlt')
        · exact .inl (heq' ▸ hlt)
      · rcases hstart' with hlt' | ⟨heq', hdeep'⟩
        · exact .inl (heq ▸ hlt')
        · exact .inr ⟨heq.trans heq', le_trans hdeep' hdeep⟩

theorem comesBy_total (x y : Candidate F × Nat) : comesBy x y || comesBy y x := by
  rw [Bool.or_eq_true, comesBy_iff, comesBy_iff]
  rcases lt_trichotomy (sequence x.1.span) (sequence y.1.span) with h | h | h
  · exact .inl (.inl h)
  · rcases lt_trichotomy x.1.span.startTime y.1.span.startTime with hs | hs | hs
    · exact .inl (.inr ⟨h, .inl hs⟩)
    · rcases le_total y.2 x.2 with hd | hd
      · exact .inl (.inr ⟨h, .inr ⟨hs, hd⟩⟩)
      · exact .inr (.inr ⟨h.symm, .inr ⟨hs.symm, hd⟩⟩)
    · exact .inr (.inr ⟨h.symm, .inl hs⟩)
  · exact .inr (.inl h)

/-- The first of candidates sorted by start precedes every other. -/
theorem precedes_of_head {candidates : List (Candidate F)} {first : Candidate F} {depth : Nat}
    {rest : List (Candidate F × Nat)}
    (hsorted : candidates.Pairwise fun x y => StartsFirst x.span y.span)
    (hhead : (candidates.map fun item => (item, (above spans item.span).length)).mergeSort comesBy =
      (first, depth) :: rest) :
    first ∈ candidates ∧ ∀ item ∈ candidates, item ≠ first → Precedes spans first.span item.span := by
  have hirrefl : ∀ s : Span F, ¬ StartsFirst s s := by
    rintro s (hlt | ⟨-, hlt⟩)
    · exact lt_irrefl _ hlt
    · exact lt_irrefl _ hlt
  have hnodup : candidates.Nodup := by
    refine hsorted.imp fun {x y} hstarts heq => ?_
    rw [heq] at hstarts
    exact hirrefl _ hstarts
  have hkeyedSorted : (candidates.map fun item => (item, (above spans item.span).length)).Pairwise
      fun x y => StartsFirst x.1.span y.1.span := List.pairwise_map.mpr hsorted
  have hkeyedNodup : (candidates.map fun item => (item, (above spans item.span).length)).Nodup :=
    hnodup.map fun _ _ heq => congrArg Prod.fst heq
  obtain ⟨hin, hleast⟩ := StableSort.head_mergeSort comesBy_trans comesBy_total hkeyedNodup
    hkeyedSorted hhead
  obtain ⟨_, hfirst, heq⟩ := List.mem_map.mp hin
  obtain ⟨rfl, rfl⟩ := Prod.mk.inj heq
  refine ⟨hfirst, fun item hitem hne => ?_⟩
  obtain ⟨hle, htie⟩ := hleast _ (List.mem_map_of_mem hitem)
  rcases comesBy_iff.mp hle with hseq | ⟨hseq, hstart | ⟨hstart, hdeep⟩⟩
  · exact .inl hseq
  · exact .inr ⟨hseq, .inl hstart⟩
  · rcases lt_or_eq_of_le hdeep with hdeeper | hlevel
    · exact .inr ⟨hseq, .inr ⟨hstart, .inl hdeeper⟩⟩
    · -- Equal keys leave the two in the order of their identifiers.
      have hstarts := htie (fun h => hne (congrArg Prod.fst h))
        (comesBy_iff.mpr (.inr ⟨hseq.symm, .inr ⟨hstart.symm, hlevel.ge⟩⟩))
      rcases hstarts with hlt | ⟨-, hid⟩
      · exact absurd (hstart ▸ hlt) (lt_irrefl _)
      · exact .inr ⟨hseq, .inr ⟨hstart, .inr ⟨hlevel.symm, hid⟩⟩⟩

end Candidates

/-! ### The diagnosis -/

section Diagnosis

variable {F : Type} [LT F] [DecidableLT F] [LE F] [DecidableLE F] [Sub F]

/-- The candidates among the spans of a trace. -/
def RootCauseAnalyzer.failing (a : RootCauseAnalyzer F) (spans : List (Span F)) : List (Candidate F) :=
  a.candidates (inOrder spans)

def RootCauseAnalyzer.DiagnosesEarliest (a : RootCauseAnalyzer F) (traceId : String)
    (spans : List (Span F)) (trigger : FailureTrigger) : Prop :=
  ∃ diagnosis, a.analyze traceId spans trigger = some diagnosis ∧
    ∃ span ∈ spans, span.spanId = diagnosis.spanId ∧ EarliestFailing spans (a.failing spans) span

/-- An innermost candidate of the earliest failing step has the index itself, or no innermost one has
an index and one of that step is in order before those of the others. -/
def RootCauseAnalyzer.EarliestStepFirst (a : RootCauseAnalyzer F) (spans : List (Span F)) : Prop :=
  (∃ item ∈ a.failing spans, Innermost spans (a.failing spans) item ∧
      EarliestFailing spans (a.failing spans) item.span ∧ item.span.stepIndex.isSome) ∨
    (∀ item ∈ a.failing spans, Innermost spans (a.failing spans) item →
        item.span.stepIndex = none) ∧
      ∃ item ∈ a.failing spans, Innermost spans (a.failing spans) item ∧
        EarliestFailing spans (a.failing spans) item.span ∧
          ∀ other ∈ a.failing spans, Innermost spans (a.failing spans) other →
            ¬ EarliestFailing spans (a.failing spans) other.span → Before spans item.span other.span

theorem candidatesFrom_sublist (a : RootCauseAnalyzer F) (previous : Option F)
    (spans : List (Span F)) :
    ((a.candidatesFrom previous spans).map Candidate.span).Sublist spans := by
  induction spans generalizing previous with
  | nil => exact List.Sublist.refl _
  | cons span rest ih =>
      rw [RootCauseAnalyzer.candidatesFrom, List.map_append]
      split
      · exact (ih _).cons span
      · exact (ih _).cons_cons span

variable {a : RootCauseAnalyzer F} {spans : List (Span F)}

theorem failing_pairwise (forest : Forest spans) :
    (a.failing spans).Pairwise fun x y => StartsFirst x.span y.span :=
  List.pairwise_map.mp ((inOrder_pairwise forest).sublist (candidatesFrom_sublist a none _))

theorem mem_of_failing {item : Candidate F} (hitem : item ∈ a.failing spans) : item.span ∈ spans :=
  Forest.mem_inOrder.mp ((candidatesFrom_sublist a none _).subset (List.mem_map_of_mem hitem))

/-- What is reported is an innermost candidate that precedes every other. -/
theorem analyze_reports (forest : Forest spans) (hsome : a.failing spans ≠ []) (traceId : String)
    (trigger : FailureTrigger) :
    ∃ diagnosis, a.analyze traceId spans trigger = some diagnosis ∧
      ∃ first ∈ a.failing spans, Innermost spans (a.failing spans) first ∧
        first.span.spanId = diagnosis.spanId ∧
          ∀ item ∈ a.failing spans, Innermost spans (a.failing spans) item → item ≠ first →
            Precedes spans first.span item.span := by
  have hspans : ∀ item ∈ a.failing spans, item.span ∈ spans := fun item hitem => mem_of_failing hitem
  have hkept := removeWrapperDuplicates_eq forest hspans
  set kept := (a.failing spans).filter fun item => Innermost spans (a.failing spans) item with hkeptDef
  have hmem : ∀ item, item ∈ kept ↔
      item ∈ a.failing spans ∧ Innermost spans (a.failing spans) item := by
    intro item
    rw [hkeptDef, List.mem_filter, decide_eq_true_iff]
  have hkeyed : (kept.mapM fun item => (depth item.span (inOrder spans)).map fun d => (item, d)) =
      some (kept.map fun item => (item, (above spans item.span).length)) := by
    refine mapM_eq_map fun item hitem => ?_
    rw [depth, forest.ancestors_inOrder, forest.ancestors_eq (mem_of_failing ((hmem item).mp hitem).1)]
    rfl
  have hsorted : kept.Pairwise fun x y => StartsFirst x.span y.span :=
    (failing_pairwise forest).sublist List.filter_sublist
  obtain ⟨inner, hinner, hinnermost⟩ :=
    exists_innermost forest hspans hsome
  cases hhead : (kept.map fun item => (item, (above spans item.span).length)).mergeSort comesBy with
  | nil =>
      have hperm := List.mergeSort_perm
        (kept.map fun item => (item, (above spans item.span).length)) comesBy
      rw [hhead, List.nil_perm, List.map_eq_nil_iff] at hperm
      exact absurd ((hmem inner).mpr ⟨hinner, hinnermost⟩) (by simp [hperm])
  | cons keyed rest =>
      obtain ⟨first, depth⟩ := keyed
      obtain ⟨hfirst, hprecedes⟩ := precedes_of_head hsorted hhead
      obtain ⟨hfailing, hfirstInner⟩ := (hmem first).mp hfirst
      refine ⟨diagnose traceId first, ?_, first, hfailing, hfirstInner, rfl, fun item hitem hitemInner hne =>
        hprecedes item ((hmem item).mpr ⟨hitem, hitemInner⟩) hne⟩
      simp only [RootCauseAnalyzer.analyze]
      rw [show a.candidates (inOrder spans) = a.failing spans from rfl, hkept]
      simp only [Option.bind_eq_bind, Option.bind_some]
      rw [hkeyed, Option.bind_some, hhead]
      rfl

/-- The diagnosis names the earliest failing step exactly if that step comes first. -/
theorem analyze_earliest_iff (a : RootCauseAnalyzer F) (spans : List (Span F)) (forest : Forest spans)
    (hsome : a.failing spans ≠ []) (traceId : String) (trigger : FailureTrigger) :
    (∃ diagnosis, a.analyze traceId spans trigger = some diagnosis) ∧
      (a.DiagnosesEarliest traceId spans trigger ↔ a.EarliestStepFirst spans) := by
  obtain ⟨diagnosis, hanalyze, first, hfirst, hinner, hid, hprecedes⟩ :=
    analyze_reports forest hsome traceId trigger
  refine ⟨⟨diagnosis, hanalyze⟩, ?_⟩
  have hreported : a.DiagnosesEarliest traceId spans trigger ↔
      EarliestFailing spans (a.failing spans) first.span := by
    constructor
    · rintro ⟨diagnosis', hanalyze', span, hspan, hspanId, hearliest⟩
      obtain rfl := Option.some.inj (hanalyze.symm.trans hanalyze')
      have hsame : span = first.span := List.inj_on_of_nodup_map forest.unique hspan
        (mem_of_failing hfirst) (hspanId.trans hid.symm)
      exact hsame ▸ hearliest
    · intro hearliest
      exact ⟨diagnosis, hanalyze, first.span, mem_of_failing hfirst, hid, hearliest⟩
  rw [hreported]
  constructor
  · intro hearliest
    cases hindex : first.span.stepIndex with
    | some index => exact .inl ⟨first, hfirst, hinner, hearliest, by rw [hindex]; rfl⟩
    | none =>
        refine .inr ⟨fun item hitem hitemInner => ?_, first, hfirst, hinner, hearliest,
          fun other hother hotherInner hlater => ?_⟩
        · by_cases heq : item = first
          · rw [heq, hindex]
          · exact ((hprecedes item hitem hitemInner heq).of_index_none hindex).1
        · have hne : other ≠ first := fun heq => hlater (heq ▸ hearliest)
          exact ((hprecedes other hother hotherInner hne).of_index_none hindex).2
  · rintro (⟨item, hitem, hitemInner, hearliest, hindexed⟩ |
      ⟨hnone, item, hitem, hitemInner, hearliest, hbefore⟩)
    · by_cases heq : item = first
      · exact heq ▸ hearliest
      · -- The first one's key is at most the least step, so the key is its step.
        exact hearliest.of_sequence_le hindexed (hprecedes item hitem hitemInner heq).sequence_le
    · by_contra hlater
      have hne : item ≠ first := fun heq => hlater (heq ▸ hearliest)
      have hfirstBefore := hbefore first hfirst hinner hlater
      have hagain := (hprecedes item hitem hitemInner hne).of_index_none (hnone first hfirst hinner)
      exact hfirstBefore.asymm hagain.2

end Diagnosis

/-! ### Traces of a workflow -/

/-- The spans of one workflow: an index is that of a plan step, or the plan's length for arbitration and
the last supervisor span; below the spans that carry one are leaves without. -/
structure RunShape {F : Type} (planLength : Nat) (spans : List (Span F)) : Prop
    extends Forest spans where
  workflow : ∃ root ∈ spans, root.parent = none ∧ root.stepIndex = none ∧
    ∀ span ∈ spans, span.spanId ≠ root.spanId → ∃ up ∈ spans, span.parent = some up.spanId
  indices : ∀ span ∈ spans, ∀ index ∈ span.stepIndex, index ≤ planLength
  leaves : ∀ span ∈ spans, span.parent ≠ none → span.stepIndex = none →
    ∀ other ∈ spans, other.parent ≠ some span.spanId
  arbitration : ∃ span ∈ spans, span.name = "coremesh.tool.arbitration" ∧
    span.stepIndex = some planLength

/-- A plan of one step, whose tool calls the database, and a failed arbitration. -/
def oneStepRun (validated : Option Bool) (leaf tool : String) : List (Span Int) :=
  [{ spanId := "01", parentSpanId := none, name := "coremesh.agent.workflow", status := "UNSET"
     startTime := "09:00:00" },
   { spanId := "02", parentSpanId := some "01", name := "coremesh.agent.node.supervisor"
     status := "UNSET", startTime := "09:00:01", stepId := some "step-1", stepIndex := some 0 },
   { spanId := "03", parentSpanId := some "01", name := "coremesh.agent.node.sql_generation"
     status := tool, startTime := "09:00:02", stepId := some "step-1", stepIndex := some 0 },
   { spanId := "04", parentSpanId := some "03", name := "coremesh.tool.sql_generation"
     status := tool, startTime := "09:00:03", stepId := some "step-1", stepIndex := some 0
     validationPassed := validated },
   { spanId := "05", parentSpanId := some "04", name := "coremesh.db.sql.execute", status := leaf
     startTime := "09:00:04" },
   { spanId := "06", parentSpanId := some "01", name := "coremesh.agent.node.supervisor"
     status := "UNSET", startTime := "09:00:05", stepIndex := some 1 },
   { spanId := "07", parentSpanId := some "01", name := "coremesh.tool.arbitration"
     status := "UNSET", startTime := "09:00:06", stepIndex := some 1, degraded := some true
     arbitrationFailed := some true }]

/-- The analyzer with its default thresholds, in ten-thousandths. -/
def defaultAnalyzer : RootCauseAnalyzer Int where
  confidenceThreshold := 6000
  confidenceDropThreshold := 2000
  round4 := id

theorem oneStepRun_shape (validated : Option Bool) (leaf tool : String) :
    RunShape 1 (oneStepRun validated leaf tool) where
  unique := by
    show ["01", "02", "03", "04", "05", "06", "07"].Nodup
    decide
  acyclic := by
    refine ⟨fun id => ["01", "02", "03", "04", "05", "06", "07"].idxOf id, ?_⟩
    have hranks : ∀ link ∈ (oneStepRun validated leaf tool).map fun span => (span.spanId, span.parent),
        ∀ up ∈ link.2, ["01", "02", "03", "04", "05", "06", "07"].idxOf up <
          ["01", "02", "03", "04", "05", "06", "07"].idxOf link.1 := by
      show ∀ link ∈ [("01", none), ("02", some "01"), ("03", some "01"), ("04", some "03"),
          ("05", some "04"), ("06", some "01"), ("07", some "01")], _
      decide +kernel
    exact fun span hspan up hup => hranks _ (List.mem_map_of_mem hspan) up hup
  workflow := by
    refine ⟨_, List.mem_cons_self, rfl, rfl, ?_⟩
    simp [oneStepRun, Span.parent]
  indices := by
    simp [oneStepRun]
  leaves := by
    simp [oneStepRun, Span.parent]
  arbitration := ⟨_, List.mem_of_getLast? rfl, rfl, rfl⟩

theorem inOrder_oneStepRun (validated : Option Bool) (leaf tool : String) :
    inOrder (oneStepRun validated leaf tool) = oneStepRun validated leaf tool := by
  refine List.mergeSort_of_pairwise ?_
  have hstarts : ((oneStepRun validated leaf tool).map Span.startTime).Pairwise (· < ·) := by
    show ["09:00:00", "09:00:01", "09:00:02", "09:00:03", "09:00:04", "09:00:05",
      "09:00:06"].Pairwise (· < ·)
    decide +kernel
  exact (List.pairwise_map.mp hstarts).imp fun hlt => startsBy_iff.mpr (.inl hlt)

/-- The call that failed is in the first step, and the arbitration after it is reported. -/
theorem not_diagnosesEarliest_of_leaf :
    RunShape 1 (oneStepRun none "ERROR" "ERROR") ∧
      defaultAnalyzer.failing (oneStepRun none "ERROR" "ERROR") ≠ [] ∧
      (defaultAnalyzer.analyze "trace" (oneStepRun none "ERROR" "ERROR") .executionError).map
        RootCauseDiagnosis.spanId = some "07" ∧
      ¬ defaultAnalyzer.DiagnosesEarliest "trace" (oneStepRun none "ERROR" "ERROR")
        .executionError := by
  have hfailing : defaultAnalyzer.failing (oneStepRun none "ERROR" "ERROR") =
      defaultAnalyzer.candidates (oneStepRun none "ERROR" "ERROR") := by
    rw [RootCauseAnalyzer.failing, inOrder_oneStepRun]
  have hshape := oneStepRun_shape none "ERROR" "ERROR"
  have hsome : defaultAnalyzer.failing (oneStepRun none "ERROR" "ERROR") ≠ [] := by
    rw [hfailing]
    decide +kernel
  obtain ⟨diagnosis, hanalyze, first, hfirst, hinner, hid, hprecedes⟩ :=
    analyze_reports hshape.toForest hsome "trace" .executionError
  rw [hfailing] at hfirst hinner hprecedes
  have hreported : diagnosis.spanId = "07" := by
    -- Of the innermost candidates only the one of the arbitration has an index.
    have hindexed : ∀ item ∈ defaultAnalyzer.candidates (oneStepRun none "ERROR" "ERROR"),
        item.span.spanId ≠ "07" →
          Innermost (oneStepRun none "ERROR" "ERROR")
            (defaultAnalyzer.candidates (oneStepRun none "ERROR" "ERROR")) item →
          ∃ other ∈ defaultAnalyzer.candidates (oneStepRun none "ERROR" "ERROR"),
            Innermost (oneStepRun none "ERROR" "ERROR")
              (defaultAnalyzer.candidates (oneStepRun none "ERROR" "ERROR")) other ∧
              sequence other.span < sequence item.span := by
      decide +kernel
    by_contra hother
    obtain ⟨other, hmem, hotherInner, hlt⟩ :=
      hindexed first hfirst (fun heq => hother (hid.symm.trans heq)) hinner
    have hne : other ≠ first := fun heq => lt_irrefl _ (heq ▸ hlt)
    rcases hprecedes other hmem hotherInner hne with hafter | ⟨hseq, -⟩
    · exact lt_asymm hafter hlt
    · exact lt_irrefl _ (hseq ▸ hlt)
  refine ⟨hshape, hsome, by rw [hanalyze, Option.map_some, hreported], ?_⟩
  rintro ⟨diagnosis', hanalyze', span, hspan, hspanId, hearliest⟩
  obtain rfl := Option.some.inj (hanalyze.symm.trans hanalyze')
  have hlater : ∀ span ∈ oneStepRun none "ERROR" "ERROR", span.spanId = "07" →
      ¬ EarliestFailing (oneStepRun none "ERROR" "ERROR")
        (defaultAnalyzer.candidates (oneStepRun none "ERROR" "ERROR")) span := by
    decide +kernel
  exact hlater span hspan (hspanId.trans hreported) (hfailing ▸ hearliest)

/-- A tool that reports its own failure is in the earliest step by itself. -/
theorem analyze_earliest_iff_validation :
    defaultAnalyzer.DiagnosesEarliest "trace" (oneStepRun (some false) "UNSET" "UNSET")
      .arbitrationFailure := by
  have hfailing : defaultAnalyzer.failing (oneStepRun (some false) "UNSET" "UNSET") =
      defaultAnalyzer.candidates (oneStepRun (some false) "UNSET" "UNSET") := by
    rw [RootCauseAnalyzer.failing, inOrder_oneStepRun]
  have hsome : defaultAnalyzer.failing (oneStepRun (some false) "UNSET" "UNSET") ≠ [] := by
    rw [hfailing]
    decide +kernel
  refine (analyze_earliest_iff defaultAnalyzer _ (oneStepRun_shape _ _ _).toForest hsome "trace"
    .arbitrationFailure).2.mpr (.inl ?_)
  rw [hfailing]
  decide +kernel

end CoreMesh.Tracing
