import CoreMesh.Tracing.TraceRegistry

/-!
# Paging through the registry

`_persist` writes the file of an artifact first and its row second, so the process can end in between;
`list_traces` reads a page of the rows and `get_trace` a file. Feedback persists an artifact again while
somebody reads page after page.
-/

namespace CoreMesh.Tracing

variable {F : Type}

/-- The files of the trace directory by trace, and the rows of the table. -/
structure TraceStore (F : Type) where
  files : String → Option (ForensicTraceArtifact F)
  rows : List (RegistryRow F)

def TraceStore.empty : TraceStore F := ⟨fun _ => none, []⟩

inductive Persisting (F : Type) where
  | persist (artifact : ForensicTraceArtifact F)
  /-- The process ends, or the table cannot be written, when the file has been replaced. -/
  | interrupted (artifact : ForensicTraceArtifact F)

def Persisting.artifact : Persisting F → ForensicTraceArtifact F
  | .persist artifact | .interrupted artifact => artifact

/-- `trace_directory / f"\x7btrace_id\x7d.json"`. -/
def pathOf (directory traceId : String) : String := directory ++ "/" ++ traceId ++ ".json"

def TraceStore.persist (directory : String) (s : TraceStore F) : Persisting F → TraceStore F
  | .persist artifact =>
      { files := Function.update s.files artifact.traceId (some artifact)
        rows := upsertRegistry s.rows (registryRow artifact (pathOf directory artifact.traceId)) }
  | .interrupted artifact =>
      { s with files := Function.update s.files artifact.traceId (some artifact) }

def getTrace (s : TraceStore F) (traceId : String) : Option (ForensicTraceArtifact F) := s.files traceId

/-- What a reader is shown that asks for one page after another; the events of a page come before it
is read. -/
def readPages (directory : String) (limit : ℕ) :
    (offset : ℕ) → TraceStore F → List (List (Persisting F)) → List (List (ForensicTraceSummary F))
  | _, _, [] => []
  | offset, s, events :: rest =>
      let s := events.foldl (TraceStore.persist directory) s
      (listTraces limit offset {} s.rows).1 :: readPages directory limit (offset + limit) s rest

/-! ### Rows -/

/-- What the order of the rows depends on. -/
def RegistryRow.key (row : RegistryRow F) : String × String := (row.traceId, row.createdAt)

def newestKeyFirst (s t : String × String) : Bool :=
  decide (t.2 < s.2) || (t.2 == s.2 && decide (t.1 ≤ s.1))

/-- The trace ids in the order they are listed in. -/
def listedIds (rows : List (RegistryRow F)) : List String :=
  (rows.mergeSort newestFirst).map RegistryRow.traceId

theorem listedIds_eq (rows : List (RegistryRow F)) :
    listedIds rows = ((rows.map RegistryRow.key).mergeSort newestKeyFirst).map Prod.fst := by
  have hsorted : (rows.mergeSort newestFirst).map RegistryRow.key =
      (rows.map RegistryRow.key).mergeSort newestKeyFirst :=
    List.map_mergeSort fun _ _ _ _ => rfl
  rw [listedIds, ← hsorted, List.map_map]
  rfl

theorem listedIds_perm (rows : List (RegistryRow F)) :
    (listedIds rows).Perm (rows.map RegistryRow.traceId) :=
  (List.mergeSort_perm rows newestFirst).map _

theorem mem_ids_upsertRegistry (rows : List (RegistryRow F)) (row : RegistryRow F) (traceId : String) :
    traceId ∈ (upsertRegistry rows row).map RegistryRow.traceId ↔
      traceId ∈ rows.map RegistryRow.traceId ∨ traceId = row.traceId := by
  rw [upsertRegistry]
  split
  · rename_i hany
    obtain ⟨old, hold, hsame⟩ := List.any_eq_true.mp hany
    have hids : (rows.map fun other => if other.traceId = row.traceId then
        { row with sessionIdHash := other.sessionIdHash, createdAt := other.createdAt } else other).map
        RegistryRow.traceId = rows.map RegistryRow.traceId := by
      rw [List.map_map]
      apply List.map_congr_left
      intro other _
      rw [Function.comp_apply]
      split
      · exact Eq.symm ‹_›
      · rfl
    rw [hids]
    constructor
    · exact Or.inl
    · rintro (hmem | rfl)
      · exact hmem
      · exact List.mem_map.mpr ⟨old, hold, by simpa using hsame⟩
  · simp

theorem nodup_upsertRegistry {rows : List (RegistryRow F)} (hnodup : (rows.map RegistryRow.traceId).Nodup)
    (row : RegistryRow F) : ((upsertRegistry rows row).map RegistryRow.traceId).Nodup := by
  rw [upsertRegistry]
  split
  · rw [List.map_map]
    convert hnodup using 1
    apply List.map_congr_left
    intro other _
    rw [Function.comp_apply]
    split
    · exact Eq.symm ‹_›
    · rfl
  · rename_i hnone
    rw [List.map_append, List.map_singleton]
    refine hnodup.append (List.nodup_singleton _) fun traceId hmem hsame => hnone ?_
    obtain ⟨old, hold, rfl⟩ := List.mem_map.mp hmem
    exact List.any_eq_true.mpr ⟨old, hold, by simpa using List.mem_singleton.mp hsame⟩

/-- A trace that is listed keeps its place when it is persisted again. -/
theorem key_upsertRegistry {rows : List (RegistryRow F)} {row : RegistryRow F}
    (hlisted : row.traceId ∈ rows.map RegistryRow.traceId) :
    (upsertRegistry rows row).map RegistryRow.key = rows.map RegistryRow.key := by
  have hany : (rows.any fun other => other.traceId == row.traceId) = true := by
    obtain ⟨old, hold, hsame⟩ := List.mem_map.mp hlisted
    exact List.any_eq_true.mpr ⟨old, hold, by simpa using hsame⟩
  rw [upsertRegistry, if_pos hany, List.map_map]
  apply List.map_congr_left
  intro other _
  rw [Function.comp_apply]
  split
  · rename_i hsame
    rw [RegistryRow.key, RegistryRow.key, hsame]
  · rfl

/-! ### The store -/

section Store

variable (directory : String)

structure TraceStore.Consistent (s : TraceStore F) : Prop where
  distinct : (s.rows.map RegistryRow.traceId).Nodup
  readable : ∀ traceId ∈ s.rows.map RegistryRow.traceId,
    ∃ artifact, getTrace s traceId = some artifact ∧ artifact.traceId = traceId

theorem TraceStore.consistent_empty : (TraceStore.empty : TraceStore F).Consistent where
  distinct := List.nodup_nil
  readable := fun _ hmem => by cases hmem

/-- A file that is replaced is that of its artifact; no file goes away. -/
theorem getTrace_persist (s : TraceStore F) (e : Persisting F) (traceId : String) :
    getTrace (s.persist directory e) traceId =
      if traceId = e.artifact.traceId then some e.artifact else getTrace s traceId := by
  cases e <;> exact Function.update_apply _ _ _ _

theorem TraceStore.Consistent.persist {s : TraceStore F} (hconsistent : s.Consistent)
    (e : Persisting F) : (s.persist directory e).Consistent := by
  have hkept : ∀ traceId ∈ s.rows.map RegistryRow.traceId,
      ∃ artifact, getTrace (s.persist directory e) traceId = some artifact ∧ artifact.traceId = traceId := by
    intro traceId hmem
    rw [getTrace_persist]
    split
    · exact ⟨e.artifact, rfl, Eq.symm ‹_›⟩
    · exact hconsistent.readable traceId hmem
  cases e with
  | interrupted artifact => exact ⟨hconsistent.distinct, hkept⟩
  | persist artifact =>
      refine ⟨nodup_upsertRegistry hconsistent.distinct _, fun traceId hmem => ?_⟩
      rcases (mem_ids_upsertRegistry s.rows _ traceId).mp hmem with hmem | rfl
      · exact hkept traceId hmem
      · refine ⟨artifact, ?_, rfl⟩
        rw [getTrace_persist]
        exact if_pos rfl

theorem TraceStore.Consistent.foldl {s : TraceStore F} (hconsistent : s.Consistent)
    (es : List (Persisting F)) : (es.foldl (TraceStore.persist directory) s).Consistent := by
  induction es generalizing s with
  | nil => exact hconsistent
  | cons e es ih => exact ih (hconsistent.persist directory e)

theorem key_persist {s : TraceStore F} {e : Persisting F}
    (hlisted : e.artifact.traceId ∈ s.rows.map RegistryRow.traceId) :
    (s.persist directory e).rows.map RegistryRow.key = s.rows.map RegistryRow.key := by
  cases e with
  | interrupted artifact => rfl
  | persist artifact => exact key_upsertRegistry hlisted

theorem ids_of_key {rows rows' : List (RegistryRow F)}
    (hkey : rows'.map RegistryRow.key = rows.map RegistryRow.key) :
    rows'.map RegistryRow.traceId = rows.map RegistryRow.traceId := by
  have hids := congrArg (List.map Prod.fst) hkey
  rw [List.map_map, List.map_map] at hids
  exact hids

theorem key_foldl {s : TraceStore F} {es : List (Persisting F)}
    (hlisted : ∀ e ∈ es, e.artifact.traceId ∈ s.rows.map RegistryRow.traceId) :
    (es.foldl (TraceStore.persist directory) s).rows.map RegistryRow.key =
      s.rows.map RegistryRow.key := by
  induction es generalizing s with
  | nil => rfl
  | cons e es ih =>
      have hkey := key_persist directory (hlisted e List.mem_cons_self)
      rw [List.foldl_cons, ih, hkey]
      intro e' he'
      rw [ids_of_key hkey]
      exact hlisted e' (List.mem_cons_of_mem e he')

/-! ### Pages -/

theorem ids_listTraces (limit offset : ℕ) (rows : List (RegistryRow F)) :
    (listTraces limit offset {} rows).1.map ForensicTraceSummary.traceId =
      ((listedIds rows).drop offset).take limit := by
  have hall : rows.filter (TraceFilter.admits {}) = rows :=
    List.filter_eq_self.mpr fun _ _ => rfl
  have hlimit : ¬ (limit : ℤ) < 0 := by omega
  rw [listTraces, hall, page, if_neg hlimit, listedIds, List.map_map, List.map_take, List.map_drop]
  rfl

theorem ids_readPages (limit offset : ℕ) (s : TraceStore F) (visits : List (List (Persisting F)))
    (hlisted : ∀ events ∈ visits, ∀ e ∈ events,
      e.artifact.traceId ∈ s.rows.map RegistryRow.traceId) :
    (readPages directory limit offset s visits).flatten.map ForensicTraceSummary.traceId =
      ((listedIds s.rows).drop offset).take (visits.length * limit) := by
  induction visits generalizing offset s with
  | nil => simp [readPages]
  | cons events visits ih =>
      have hkey := key_foldl directory (hlisted events List.mem_cons_self)
      have hsame : listedIds (events.foldl (TraceStore.persist directory) s).rows = listedIds s.rows := by
        rw [listedIds_eq, hkey, ← listedIds_eq]
      rw [readPages, List.flatten_cons, List.map_append, ids_listTraces, ih, hsame, List.length_cons,
        Nat.add_mul, Nat.one_mul, Nat.add_comm (visits.length * limit), List.take_add, List.drop_drop]
      intro events' hevents' e he
      rw [ids_of_key hkey]
      exact hlisted events' (List.mem_cons_of_mem events hevents') e he

/-- After any run of persisted and interrupted artifacts, a reader who asks for page after page while
traces that are listed are persisted again is shown each of them once, the newest first, and each one
shown can be read, also at the end. -/
theorem paging_complete (es : List (Persisting F)) (limit : ℕ) (visits : List (List (Persisting F)))
    (hlisted : ∀ events ∈ visits, ∀ e ∈ events, e.artifact.traceId ∈
      (es.foldl (TraceStore.persist directory) .empty).rows.map RegistryRow.traceId)
    (hall : (es.foldl (TraceStore.persist directory) .empty).rows.length ≤ visits.length * limit) :
    let s := es.foldl (TraceStore.persist directory) .empty
    let shown := (readPages directory limit 0 s visits).flatten.map ForensicTraceSummary.traceId
    shown = listedIds s.rows ∧ shown.Nodup ∧
      (∀ traceId, traceId ∈ shown ↔ traceId ∈ s.rows.map RegistryRow.traceId) ∧
      ∀ traceId ∈ shown, ∃ artifact,
        getTrace (visits.flatten.foldl (TraceStore.persist directory) s) traceId = some artifact ∧
          artifact.traceId = traceId := by
  intro s shown
  have hconsistent : s.Consistent := TraceStore.consistent_empty.foldl directory es
  have hshown : shown = listedIds s.rows := by
    have hlength : (listedIds s.rows).length ≤ visits.length * limit := by
      rw [(listedIds_perm s.rows).length_eq, List.length_map]
      exact hall
    change (readPages directory limit 0 s visits).flatten.map _ = _
    rw [ids_readPages directory limit 0 s visits hlisted, List.drop_zero, List.take_of_length_le hlength]
  have hmem : ∀ traceId, traceId ∈ shown ↔ traceId ∈ s.rows.map RegistryRow.traceId := by
    intro traceId
    rw [hshown]
    exact (listedIds_perm s.rows).mem_iff
  refine ⟨hshown, ?_, hmem, fun traceId htrace => ?_⟩
  · rw [hshown]
    exact (listedIds_perm s.rows).nodup_iff.mpr hconsistent.distinct
  · have hrows : ∀ e ∈ visits.flatten, e.artifact.traceId ∈ s.rows.map RegistryRow.traceId := by
      intro e he
      obtain ⟨events, hevents, he⟩ := List.mem_flatten.mp he
      exact hlisted events hevents e he
    have hkey := key_foldl directory hrows
    apply (hconsistent.foldl directory visits.flatten).readable
    rw [ids_of_key hkey]
    exact (hmem traceId).mp htrace

end Store

/-! ### Two traces and a page each -/

def completed (traceId startedAt : String) : ForensicTraceArtifact ℚ where
  traceId := traceId
  status := "completed"
  trigger := none
  triggerReasons := []
  startedAt := startedAt
  endedAt := startedAt
  durationMs := 0
  finalConfidence := none
  spanCount := 0
  errorCount := 0
  degradedCount := 0
  diagnosis := none
  spans := []
  tree := none

def stored : List (Persisting ℚ) :=
  [.persist (completed "a" "2026-01-01T00:00:00+00:00"), .persist (completed "b" "2026-01-02T00:00:00+00:00")]

/-- Both traces are persisted again, one before each page. -/
def flagged : List (List (Persisting ℚ)) :=
  [[.persist (completed "a" "2026-01-03T00:00:00+00:00")],
    [.interrupted (completed "b" "2026-01-03T00:00:00+00:00")]]

theorem paging_complete_flagged :
    let s := stored.foldl (TraceStore.persist ".traces") .empty
    let shown := (readPages ".traces" 1 0 s flagged).flatten.map ForensicTraceSummary.traceId
    shown = listedIds s.rows ∧ shown.Nodup ∧
      (∀ traceId, traceId ∈ shown ↔ traceId ∈ s.rows.map RegistryRow.traceId) ∧
      ∀ traceId ∈ shown, ∃ artifact,
        getTrace (flagged.flatten.foldl (TraceStore.persist ".traces") s) traceId = some artifact ∧
          artifact.traceId = traceId := by
  have hids : (stored.foldl (TraceStore.persist ".traces") .empty).rows.map RegistryRow.traceId =
      ["a", "b"] := by rfl
  apply paging_complete ".traces" stored 1 flagged
  · rw [hids]
    intro events hevents e he
    simp only [flagged, List.mem_cons, List.not_mem_nil, or_false] at hevents
    rcases hevents with rfl | rfl <;> obtain rfl := List.mem_singleton.mp he <;>
      simp [Persisting.artifact, completed]
  · have hlength := congrArg List.length hids
    rw [List.length_map] at hlength
    rw [hlength]
    decide

end CoreMesh.Tracing
