import CoreMesh.LogMiner.RunAudit

/-!
# The candidate store

A candidate is kept three times: as a row with a JSON list of its members and their count, as the rows
of the member table, and, once it is promoted, through a link to a golden case. The transactions that
write one of them write the others. `Counted` says it of members and counts, `Linked` of the golden
case, and each is kept by the merge of members, on which the other transactions are built.
-/

namespace CoreMesh.LogMiner

open Transition

/-- The value under a key of a JSONB object. -/
def Provenance.get (provenance : Provenance) (key : String) : Option Jsonb :=
  (provenance.find? fun member => member.1 == key).map Prod.snd

theorem Provenance.get_concat {left right : Provenance} {key : String}
    (hright : right.any (fun member => member.1 == key) = true) :
    (left.concat right).get key = right.get key := by
  unfold Provenance.get Provenance.concat
  rw [List.find?_append]
  have hleft : (left.filter fun member => !right.any (·.1 == member.1)).find?
      (fun member => member.1 == key) = none := by
    rw [List.find?_eq_none]
    intro member hmember hkey
    obtain ⟨-, hfresh⟩ := List.mem_filter.mp hmember
    rw [beq_iff_eq] at hkey
    rw [hkey, hright] at hfresh
    cases hfresh
  rw [hleft, Option.none_or]

/-! ### Members -/

/-- The member rows after trace ids were added to a candidate. -/
def addMembers (members : List MemberRow) (candidateId : Uuid) (traceIds : List String) :
    List MemberRow :=
  traceIds.foldl (fun members traceId => Table.insertIgnore id members
    { candidateId := candidateId, traceId := traceId }) members

variable {members : List MemberRow} {candidateId : Uuid} {traceIds : List String}

theorem insertIgnore_of_mem {row : MemberRow} (hmem : row ∈ members) :
    Table.insertIgnore id members row = members :=
  if_pos (List.any_eq_true.mpr ⟨row, hmem, by simp⟩)

theorem insertIgnore_of_not_mem {row : MemberRow} (hmem : row ∉ members) :
    Table.insertIgnore id members row = members ++ [row] := by
  refine if_neg fun hany => hmem ?_
  obtain ⟨other, hother, heq⟩ := List.any_eq_true.mp hany
  have hsame : other = row := by simpa using heq
  exact hsame ▸ hother

theorem mem_addMembers {row : MemberRow} : row ∈ addMembers members candidateId traceIds ↔
    row ∈ members ∨ row.candidateId = candidateId ∧ row.traceId ∈ traceIds := by
  unfold addMembers
  induction traceIds generalizing members with
  | nil => simp
  | cons traceId rest ih =>
      rw [List.foldl_cons, ih, List.mem_cons]
      by_cases hmem : (⟨candidateId, traceId⟩ : MemberRow) ∈ members
      · rw [insertIgnore_of_mem hmem]
        constructor
        · rintro (hold | ⟨hid, hrest⟩)
          · exact .inl hold
          · exact .inr ⟨hid, .inr hrest⟩
        · rintro (hold | ⟨rfl, rfl | hrest⟩)
          · exact .inl hold
          · exact .inl hmem
          · exact .inr ⟨rfl, hrest⟩
      · rw [insertIgnore_of_not_mem hmem, List.mem_append, List.mem_singleton]
        constructor
        · rintro ((hold | rfl) | ⟨hid, hrest⟩)
          · exact .inl hold
          · exact .inr ⟨rfl, .inl rfl⟩
          · exact .inr ⟨hid, .inr hrest⟩
        · rintro (hold | ⟨rfl, rfl | hrest⟩)
          · exact .inl (.inl hold)
          · exact .inl (.inr rfl)
          · exact .inr ⟨rfl, hrest⟩

theorem nodup_addMembers (hmembers : members.Nodup) : (addMembers members candidateId traceIds).Nodup := by
  unfold addMembers
  induction traceIds generalizing members with
  | nil => exact hmembers
  | cons traceId rest ih =>
      rw [List.foldl_cons]
      apply ih
      by_cases hmem : (⟨candidateId, traceId⟩ : MemberRow) ∈ members
      · rwa [insertIgnore_of_mem hmem]
      · rw [insertIgnore_of_not_mem hmem]
        exact List.nodup_append.mpr ⟨hmembers, List.nodup_singleton _, fun a ha b hb hab =>
          hmem (List.mem_singleton.mp hb ▸ hab ▸ ha)⟩

/-- Members that are there already are not added. -/
theorem addMembers_of_mem (hall : ∀ traceId ∈ traceIds, (⟨candidateId, traceId⟩ : MemberRow) ∈ members) :
    addMembers members candidateId traceIds = members := by
  unfold addMembers
  induction traceIds with
  | nil => rfl
  | cons traceId rest ih =>
      rw [List.forall_mem_cons] at hall
      rw [List.foldl_cons, insertIgnore_of_mem hall.1]
      exact ih hall.2

/-- The members of the other candidates are left alone. -/
theorem membersOf_addMembers {other : Uuid} (hother : other ≠ candidateId) :
    membersOf (addMembers members candidateId traceIds) other = membersOf members other := by
  unfold membersOf addMembers
  congr 2
  induction traceIds generalizing members with
  | nil => rfl
  | cons traceId rest ih =>
      rw [List.foldl_cons, ih]
      by_cases hmem : (⟨candidateId, traceId⟩ : MemberRow) ∈ members
      · rw [insertIgnore_of_mem hmem]
      · rw [insertIgnore_of_not_mem hmem, List.filter_append]
        have hne : (candidateId == other) = false := beq_eq_false_iff_ne.mpr hother.symm
        rw [List.filter_singleton, hne, cond_false, List.append_nil]

theorem mem_membersOf {traceId : String} :
    traceId ∈ membersOf members candidateId ↔ (⟨candidateId, traceId⟩ : MemberRow) ∈ members := by
  unfold membersOf
  rw [List.mem_mergeSort, List.mem_map]
  constructor
  · rintro ⟨row, hrow, rfl⟩
    obtain ⟨hmem, hid⟩ := List.mem_filter.mp hrow
    rw [beq_iff_eq] at hid
    rwa [← hid]
  · exact fun hmem => ⟨_, List.mem_filter.mpr ⟨hmem, by simp⟩, rfl⟩

/-- The members of a candidate are listed in order, each once. -/
theorem membersOf_sorted (hmembers : members.Nodup) (candidateId : Uuid) :
    (membersOf members candidateId).Pairwise (· < ·) := by
  have hle : (membersOf members candidateId).Pairwise (· ≤ ·) := by
    have htrans : ∀ a b c : String, decide (a ≤ b) → decide (b ≤ c) → decide (a ≤ c) :=
      fun a b c hab hbc => decide_eq_true
        (String.le_trans (of_decide_eq_true hab) (of_decide_eq_true hbc))
    have htotal : ∀ a b : String, decide (a ≤ b) || decide (b ≤ a) := fun a b => by
      simpa using String.le_total a b
    have hsorted := List.pairwise_mergeSort htrans htotal
      ((members.filter fun row => row.candidateId == candidateId).map MemberRow.traceId)
    exact hsorted.imp fun h => of_decide_eq_true h
  have hnodup : (membersOf members candidateId).Nodup := by
    unfold membersOf
    rw [(List.mergeSort_perm _ _).nodup_iff]
    refine List.Nodup.map_on (fun row hrow row' hrow' htrace => ?_) (hmembers.filter _)
    have hid := (List.mem_filter.mp hrow).2
    have hid' := (List.mem_filter.mp hrow').2
    rw [beq_iff_eq] at hid hid'
    obtain ⟨candidateId, traceId⟩ := row
    obtain ⟨candidateId', traceId'⟩ := row'
    simp only at hid hid' htrace
    rw [hid, hid', htrace]
  exact hle.imp₂ (fun a b hab hne => by
    by_contra hlt
    exact hne (String.le_antisymm hab (String.not_lt.mp hlt))) hnodup

theorem mem_sortedTraceIds {traceId : String} : traceId ∈ sortedTraceIds traceIds ↔ traceId ∈ traceIds := by
  unfold sortedTraceIds
  rw [List.mem_mergeSort, List.mem_dedup]

/-! ### Candidates -/

/-- The list and the count of a candidate are those of its member rows, one of which is its
representative's. -/
structure Counted (members : List MemberRow) (row : CandidateRow) : Prop where
  memberTraceIds : row.memberTraceIds = membersOf members row.candidateId
  representative : (⟨row.candidateId, row.representativeTraceId⟩ : MemberRow) ∈ members
  memberCount : row.provenance.get "member_count" = some (.int row.memberTraceIds.length)

/-- A promoted candidate has the golden case of its fingerprint, and no other candidate has one. -/
structure Linked (golden : List GoldenRow) (row : CandidateRow) : Prop where
  promoted : row.status = .promoted → ∃ case ∈ golden, row.goldenCaseId = some case.caseId ∧
    case.sourceFingerprint = some row.sourceFingerprint
  pending : row.status = .pendingReview → row.goldenCaseId = none

structure Consistent (db : Database) : Prop where
  ids : (db.candidates.map CandidateRow.candidateId).Nodup
  fingerprints : (db.candidates.map CandidateRow.sourceFingerprint).Nodup
  members : db.members.Nodup
  counted : ∀ row ∈ db.candidates, Counted db.members row
  linked : ∀ row ∈ db.candidates, Linked db.golden row

theorem consistent_migrated (golden : List GoldenRow) (logs : List LogRow) :
    Consistent (Database.migrated golden logs) where
  ids := List.nodup_nil
  fingerprints := List.nodup_nil
  members := List.nodup_nil
  counted := fun _ hrow => by cases hrow
  linked := fun _ hrow => by cases hrow

/-- The columns that a merge of members leaves alone. -/
structure SameCandidate (row row' : CandidateRow) : Prop where
  candidateId : row'.candidateId = row.candidateId
  sourceFingerprint : row'.sourceFingerprint = row.sourceFingerprint
  representativeTraceId : row'.representativeTraceId = row.representativeTraceId
  status : row'.status = row.status
  goldenCaseId : row'.goldenCaseId = row.goldenCaseId

/-- No golden case has gone or changed its fingerprint. -/
def GoldenKept (golden golden' : List GoldenRow) : Prop :=
  ∀ case ∈ golden, ∃ case' ∈ golden', case'.caseId = case.caseId ∧
    case'.sourceFingerprint = case.sourceFingerprint

theorem Linked.of_same {golden golden' : List GoldenRow} {row row' : CandidateRow}
    (hlinked : Linked golden row) (hsame : SameCandidate row row') (hkept : GoldenKept golden golden') :
    Linked golden' row' where
  promoted := by
    intro hstatus
    rw [hsame.status] at hstatus
    obtain ⟨case, hcase, hid, hfingerprint⟩ := hlinked.promoted hstatus
    obtain ⟨case', hcase', hid', hfingerprint'⟩ := hkept case hcase
    refine ⟨case', hcase', ?_, ?_⟩
    · rw [hsame.goldenCaseId, hid, hid']
    · rw [hfingerprint', hfingerprint, hsame.sourceFingerprint]
  pending := by
    intro hstatus
    rw [hsame.status] at hstatus
    rw [hsame.goldenCaseId]
    exact hlinked.pending hstatus

section Merge

variable (db : Database) (candidateId : Uuid) (memberTraceIds : List String) (facts : ClusterFacts)
  (now : Int)

theorem mergeMembers_members : (mergeMembers db candidateId memberTraceIds facts now).members =
    addMembers db.members candidateId (sortedTraceIds memberTraceIds) := rfl

theorem mem_mergeMembers_members {row : MemberRow} :
    row ∈ (mergeMembers db candidateId memberTraceIds facts now).members ↔
      row ∈ db.members ∨ row.candidateId = candidateId ∧ row.traceId ∈ memberTraceIds := by
  rw [mergeMembers_members, mem_addMembers, mem_sortedTraceIds]

/-- The row of the candidate after the merge. -/
def mergedRow (row : CandidateRow) : CandidateRow :=
  let ids := membersOf (mergeMembers db candidateId memberTraceIds facts now).members candidateId
  { row with
    clusterLabel := facts.clusterLabel
    isNoise := facts.isNoise
    outlierScore := facts.outlierScore
    memberTraceIds := ids
    provenance := row.provenance.concat (clusterProvenance ids.length facts)
    updatedAt := now }

theorem mergeMembers_candidates : (mergeMembers db candidateId memberTraceIds facts now).candidates =
    Table.update db.candidates (fun row => row.candidateId == candidateId)
      (mergedRow db candidateId memberTraceIds facts now) := rfl

theorem mergedRow_same (row : CandidateRow) :
    SameCandidate row (mergedRow db candidateId memberTraceIds facts now row) :=
  ⟨rfl, rfl, rfl, rfl, rfl⟩

theorem mergedRow_memberCount (row : CandidateRow) :
    (mergedRow db candidateId memberTraceIds facts now row).provenance.get "member_count" =
      some (.int (mergedRow db candidateId memberTraceIds facts now row).memberTraceIds.length) :=
  Provenance.get_concat rfl

theorem mergeMembers_map {Column : Type} {column : CandidateRow → Column}
    (hcolumn : ∀ row, column (mergedRow db candidateId memberTraceIds facts now row) = column row) :
    (mergeMembers db candidateId memberTraceIds facts now).candidates.map column =
      db.candidates.map column := by
  rw [mergeMembers_candidates]
  exact Table.map_update hcolumn _ _

theorem mergeMembers_golden :
    GoldenKept db.golden (mergeMembers db candidateId memberTraceIds facts now).golden := by
  intro case hcase
  unfold mergeMembers
  dsimp only
  split
  · exact ⟨case, hcase, rfl, rfl⟩
  · next candidate _ =>
      cases hlinked : candidate.goldenCaseId == some case.caseId with
      | true => exact ⟨_, Table.mem_update.mpr (.inl ⟨case, hcase, hlinked, rfl⟩), rfl, rfl⟩
      | false => exact ⟨case, Table.mem_update.mpr (.inr ⟨hcase, hlinked⟩), rfl, rfl⟩

theorem mergeMembers_same {row' : CandidateRow}
    (hrow' : row' ∈ (mergeMembers db candidateId memberTraceIds facts now).candidates) :
    ∃ row ∈ db.candidates, SameCandidate row row' := by
  rw [mergeMembers_candidates] at hrow'
  obtain ⟨row, hrow, -, rfl⟩ | ⟨hrow, -⟩ := Table.mem_update.mp hrow'
  · exact ⟨row, hrow, mergedRow_same _ _ _ _ _ row⟩
  · exact ⟨row', hrow, ⟨rfl, rfl, rfl, rfl, rfl⟩⟩

variable {db candidateId memberTraceIds}

/-- A merge counts the members of its candidate anew and leaves the others' counts right. -/
theorem mergeMembers_counted
    (hothers : ∀ row ∈ db.candidates, row.candidateId ≠ candidateId → Counted db.members row)
    (hrepresentative : ∀ row ∈ db.candidates, row.candidateId = candidateId →
      row.representativeTraceId ∈ memberTraceIds ∨
        (⟨candidateId, row.representativeTraceId⟩ : MemberRow) ∈ db.members) :
    ∀ row ∈ (mergeMembers db candidateId memberTraceIds facts now).candidates,
      Counted (mergeMembers db candidateId memberTraceIds facts now).members row := by
  intro row' hrow'
  rw [mergeMembers_candidates] at hrow'
  obtain ⟨row, hrow, hid, rfl⟩ | ⟨hrow, hother⟩ := Table.mem_update.mp hrow'
  · rw [beq_iff_eq] at hid
    subst hid
    refine ⟨rfl, (mem_mergeMembers_members _ _ _ _ _).mpr ?_, mergedRow_memberCount _ _ _ _ _ row⟩
    obtain hnew | hold := hrepresentative row hrow rfl
    · exact .inr ⟨rfl, hnew⟩
    · exact .inl hold
  · have hne : row'.candidateId ≠ candidateId := beq_eq_false_iff_ne.mp hother
    have hcounted := hothers row' hrow hne
    refine ⟨?_, (mem_mergeMembers_members _ _ _ _ _).mpr (.inl hcounted.representative),
      hcounted.memberCount⟩
    rw [mergeMembers_members, membersOf_addMembers hne]
    exact hcounted.memberTraceIds

theorem Consistent.mergeMembers (hconsistent : Consistent db) :
    Consistent (mergeMembers db candidateId memberTraceIds facts now) where
  ids := by
    rw [mergeMembers_map _ _ _ _ _ fun _ => rfl]
    exact hconsistent.ids
  fingerprints := by
    rw [mergeMembers_map _ _ _ _ _ fun _ => rfl]
    exact hconsistent.fingerprints
  members := nodup_addMembers hconsistent.members
  counted := by
    apply mergeMembers_counted
    · exact fun row hrow _ => hconsistent.counted row hrow
    · rintro row hrow rfl
      exact .inr (hconsistent.counted row hrow).representative
  linked := by
    intro row' hrow'
    obtain ⟨row, hrow, hsame⟩ := mergeMembers_same _ _ _ _ _ hrow'
    exact (hconsistent.linked row hrow).of_same hsame (mergeMembers_golden _ _ _ _ _)

end Merge

/-! ### Transactions -/

variable {db db' : Database} {claim : RunClaim} {clock : TxClock}

/-- The table after the insert of a candidate. -/
def Database.inserted (db : Database) (row : CandidateRow) : Database :=
  { db with candidates := db.candidates ++ [row] }

section Inserted

variable {row : CandidateRow} (traceIds : List String) (facts : ClusterFacts) (now : Int)

theorem nodup_inserted {Column : Type} {column : CandidateRow → Column}
    (hcolumn : ∀ row', column (mergedRow (db.inserted row) row.candidateId traceIds facts now row') =
      column row')
    (hnodup : (db.candidates.map column).Nodup) (hfresh : column row ∉ db.candidates.map column) :
    ((mergeMembers (db.inserted row) row.candidateId traceIds facts now).candidates.map column).Nodup := by
  rw [mergeMembers_map _ _ _ _ _ hcolumn]
  exact Table.nodup_map_concat hnodup hfresh

theorem counted_inserted (hconsistent : Consistent db)
    (hfresh : row.candidateId ∉ db.candidates.map CandidateRow.candidateId)
    (hrepresentative : row.representativeTraceId ∈ traceIds) :
    ∀ row' ∈ (mergeMembers (db.inserted row) row.candidateId traceIds facts now).candidates,
      Counted (mergeMembers (db.inserted row) row.candidateId traceIds facts now).members row' := by
  apply mergeMembers_counted
  · intro row' hrow' hother
    obtain hold | hnew := List.mem_append.mp hrow'
    · exact hconsistent.counted row' hold
    · rw [List.mem_singleton.mp hnew] at hother
      exact absurd rfl hother
  · intro row' hrow' hid
    obtain hold | hnew := List.mem_append.mp hrow'
    · exact absurd (hid ▸ List.mem_map_of_mem hold) hfresh
    · rw [List.mem_singleton.mp hnew]
      exact .inl hrepresentative

/-- The candidate that is inserted has no golden case yet; the others are as they were. -/
theorem linked_inserted (hconsistent : Consistent db)
    (hfresh : row.candidateId ∉ db.candidates.map CandidateRow.candidateId) :
    ∀ row' ∈ (mergeMembers (db.inserted row) row.candidateId traceIds facts now).candidates,
      (row'.candidateId ≠ row.candidateId ∧
        Linked (mergeMembers (db.inserted row) row.candidateId traceIds facts now).golden row') ∨
      SameCandidate row row' := by
  intro row' hrow'
  obtain ⟨old, hold, hsame⟩ := mergeMembers_same _ _ _ _ _ hrow'
  obtain hold | hnew := List.mem_append.mp hold
  · refine .inl ⟨fun hid => hfresh ?_, ?_⟩
    · rw [← hid, hsame.candidateId]
      exact List.mem_map_of_mem hold
    · exact (hconsistent.linked old hold).of_same hsame
        (mergeMembers_golden (db.inserted row) row.candidateId traceIds facts now)
  · exact .inr (List.mem_singleton.mp hnew ▸ hsame)

end Inserted

theorem insertGolden_kept {golden golden' : List GoldenRow} {row : GoldenRow}
    (hok : insertGolden golden row = .ok golden') : GoldenKept golden golden' := by
  unfold insertGolden at hok
  intro case hcase
  split at hok
  · obtain rfl := Except.ok.inj hok
    exact ⟨case, hcase, rfl, rfl⟩
  · split at hok
    · cases hok
    · next golden'' hinsert =>
        obtain rfl := Except.ok.inj hok
        obtain ⟨-, rfl⟩ := Table.insert_eq_some hinsert
        exact ⟨case, List.mem_append_left _ hcase, rfl, rfl⟩

/-- A promotion links the golden case of the fingerprint to the candidate. -/
theorem promote_spec {candidate : Candidate} {candidateId caseId linked : Uuid} {now : Int}
    (hok : promote db candidate claim candidateId caseId now = .ok (linked, db')) :
    db'.members = db.members ∧ GoldenKept db.golden db'.golden ∧
      (∃ case ∈ db'.golden, case.caseId = linked ∧
        case.sourceFingerprint = some candidate.sourceFingerprint) ∧
      db'.candidates = Table.update db.candidates (fun other => other.candidateId == candidateId)
        fun other => { other with goldenCaseId := some linked, updatedAt := now } := by
  unfold promote at hok
  obtain ⟨golden, hinsert, hlink⟩ := Outcome.bind_eq_ok hok
  split at hlink
  · cases hlink
  · next case hcase =>
      obtain ⟨rfl, rfl⟩ := Prod.mk.inj (Except.ok.inj hlink)
      refine ⟨rfl, insertGolden_kept hinsert, ⟨case, List.mem_of_find?_eq_some hcase, rfl, ?_⟩, rfl⟩
      have hfingerprint := List.find?_some hcase
      rw [beq_iff_eq] at hfingerprint
      exact hfingerprint

/-- The ways in which a call of `persist_candidate` ends. -/
theorem persistCandidate_cases {candidate : Candidate} {candidateId caseId : Uuid}
    {result : PersistResult}
    (hok : persistCandidate db claim candidate candidateId caseId clock = .ok (result, db')) :
    (∃ existing facts, existing ∈ db.candidates ∧
      existing.sourceFingerprint = candidate.sourceFingerprint ∧
      db' = mergeMembers db existing.candidateId candidate.allTraceIds facts clock.began) ∨
    ∃ row facts merged, row = candidate.row candidateId claim.runId clock.began ∧
      row.candidateId ∉ db.candidates.map CandidateRow.candidateId ∧
      row.sourceFingerprint ∉ db.candidates.map CandidateRow.sourceFingerprint ∧
      merged = mergeMembers (db.inserted row) row.candidateId candidate.allTraceIds facts clock.began ∧
      (candidate.status = .pendingReview ∧ db' = merged ∨
        candidate.status = .promoted ∧ ∃ linked,
          promote merged candidate claim row.candidateId caseId clock.began = .ok (linked, db')) := by
  obtain ⟨-, hrest⟩ := assertClaim_bind hok
  split at hrest
  · next existing hexisting =>
      obtain ⟨facts, -, hreturn⟩ := Outcome.bind_eq_ok hrest
      obtain rfl := (Prod.mk.inj (Except.ok.inj hreturn)).2
      have hfingerprint := List.find?_some hexisting
      exact .inl ⟨existing, facts, List.mem_of_find?_eq_some hexisting, by simpa using hfingerprint, rfl⟩
  · next hnone =>
      right
      split at hrest
      · next candidates hinsert =>
          obtain ⟨hfresh, rfl⟩ := Table.insert_eq_some hinsert
          obtain ⟨facts, -, hstatus⟩ := Outcome.bind_eq_ok hrest
          refine ⟨_, facts, _, rfl, hfresh, fun hmem => ?_, rfl, ?_⟩
          · obtain ⟨row, hrow, hfingerprint⟩ := List.mem_map.mp hmem
            have hother := List.find?_eq_none.mp hnone row hrow
            rw [hfingerprint] at hother
            simp [Candidate.row] at hother
          · cases hcandidate : candidate.status with
            | pendingReview =>
                rw [hcandidate] at hstatus
                exact .inl ⟨rfl, (Prod.mk.inj (Except.ok.inj hstatus)).2.symm⟩
            | promoted =>
                rw [hcandidate] at hstatus
                obtain ⟨⟨linked, promoted⟩, hpromote, hreturn⟩ := Outcome.bind_eq_ok hstatus
                obtain rfl := (Prod.mk.inj (Except.ok.inj hreturn)).2
                exact .inr ⟨rfl, linked, hpromote⟩
      · cases hrest

theorem Consistent.persistCandidate (hconsistent : Consistent db) {candidate : Candidate}
    {candidateId caseId : Uuid} {result : PersistResult}
    (hok : persistCandidate db claim candidate candidateId caseId clock = .ok (result, db')) :
    Consistent db' := by
  obtain ⟨existing, facts, -, -, rfl⟩ | ⟨row, facts, merged, hrow, hid, hfingerprint, hmerged, hstatus⟩ :=
    persistCandidate_cases hok
  · exact hconsistent.mergeMembers facts clock.began
  have hids := nodup_inserted candidate.allTraceIds facts clock.began (fun _ => rfl) hconsistent.ids hid
  have hfingerprints := nodup_inserted candidate.allTraceIds facts clock.began (fun _ => rfl)
    hconsistent.fingerprints hfingerprint
  have hmembers : merged.members.Nodup := by
    rw [hmerged]
    exact nodup_addMembers hconsistent.members
  have hcounted := counted_inserted candidate.allTraceIds facts clock.began hconsistent hid
    (by rw [hrow]; exact List.mem_cons_self)
  have hlinked := linked_inserted candidate.allTraceIds facts clock.began hconsistent hid
  rw [← hmerged] at hids hfingerprints hcounted hlinked
  obtain ⟨hpending, rfl⟩ | ⟨hpromoted, linked, hpromote⟩ := hstatus
  · refine ⟨hids, hfingerprints, hmembers, hcounted, fun row' hrow' => ?_⟩
    obtain ⟨-, hold⟩ | hsame := hlinked row' hrow'
    · exact hold
    · constructor
      · intro hstatus
        rw [hsame.status, hrow] at hstatus
        exact absurd (hstatus.symm.trans hpending) (by decide)
      · intro _
        rw [hsame.goldenCaseId, hrow]
        rfl
  · obtain ⟨hpromoteMembers, hkept, ⟨case, hcase, rfl, hcaseFingerprint⟩, hcandidates⟩ :=
      promote_spec hpromote
    refine ⟨?_, ?_, hpromoteMembers ▸ hmembers, fun row' hrow' => ?_, fun row' hrow' => ?_⟩
    · rw [hcandidates, Table.map_update]
      · exact hids
      · exact fun _ => rfl
    · rw [hcandidates, Table.map_update]
      · exact hfingerprints
      · exact fun _ => rfl
    · rw [hpromoteMembers]
      rw [hcandidates] at hrow'
      obtain ⟨old, hold, -, rfl⟩ | ⟨hold, -⟩ := Table.mem_update.mp hrow'
      · obtain ⟨hids, hrepresentative, hcount⟩ := hcounted old hold
        exact ⟨hids, hrepresentative, hcount⟩
      · exact hcounted row' hold
    · rw [hcandidates] at hrow'
      obtain ⟨old, hold, holdId, rfl⟩ | ⟨hold, hother⟩ := Table.mem_update.mp hrow'
      · rw [beq_iff_eq] at holdId
        obtain ⟨hne, -⟩ | hsame := hlinked old hold
        · exact absurd holdId hne
        · refine ⟨fun _ => ⟨case, hcase, rfl, ?_⟩, fun hstatus => ?_⟩
          · rw [hcaseFingerprint, hsame.sourceFingerprint, hrow]
            rfl
          · rw [hsame.status, hrow] at hstatus
            exact absurd (hstatus.symm.trans hpromoted) (by decide)
      · obtain ⟨-, hlinkedRow⟩ | hsame := hlinked row' hold
        · exact hlinkedRow.of_same ⟨rfl, rfl, rfl, rfl, rfl⟩ hkept
        · rw [hsame.candidateId] at hother
          simp at hother

/-- The three tables of the store are as they were. -/
structure StoreKept (db db' : Database) : Prop where
  candidates : db'.candidates = db.candidates
  members : db'.members = db.members
  golden : db'.golden = db.golden

theorem StoreKept.consistent (hkept : StoreKept db db') (hconsistent : Consistent db) :
    Consistent db' where
  ids := hkept.candidates ▸ hconsistent.ids
  fingerprints := hkept.candidates ▸ hconsistent.fingerprints
  members := hkept.members ▸ hconsistent.members
  counted := by
    rw [hkept.candidates, hkept.members]
    exact hconsistent.counted
  linked := by
    rw [hkept.candidates, hkept.golden]
    exact hconsistent.linked

theorem updateRun_kept {runId : Uuid} {summary : RunSummary} {now : Int}
    (hok : updateRun db runId summary now = .ok ((), db')) : StoreKept db db' := by
  unfold updateRun at hok
  split at hok
  · obtain rfl := (Prod.mk.inj (Except.ok.inj hok)).2
    exact ⟨rfl, rfl, rfl⟩
  · cases hok

/-- The rows that a purge keeps have their members still. -/
theorem Consistent.purge (hconsistent : Consistent db) (retentionCutoff : Int) :
    Consistent (purge db retentionCutoff).2 where
  ids := (List.filter_sublist.map _).nodup hconsistent.ids
  fingerprints := (List.filter_sublist.map _).nodup hconsistent.fingerprints
  members := hconsistent.members.filter _
  linked := fun row hrow => hconsistent.linked row (List.mem_of_mem_filter hrow)
  counted := by
    intro row hrow
    have hold := hconsistent.counted row (List.mem_of_mem_filter hrow)
    -- The members of a kept candidate are kept.
    have hkept {member : MemberRow} (hid : member.candidateId = row.candidateId) :
        (!(!(Table.delete db.candidates fun row =>
          row.status == .pendingReview && decide (row.createdAt < retentionCutoff)).any
            fun candidate => candidate.candidateId == member.candidateId)) = true := by
      rw [Bool.not_not]
      exact List.any_eq_true.mpr ⟨row, hrow, by simp [hid]⟩
    have hmembers : membersOf (LogMiner.purge db retentionCutoff).2.members row.candidateId =
        membersOf db.members row.candidateId := by
      unfold membersOf LogMiner.purge Table.delete
      rw [List.filter_filter]
      congr 2
      refine List.filter_congr fun member _ => ?_
      cases hid : member.candidateId == row.candidateId with
      | false => rfl
      | true => exact hkept (beq_iff_eq.mp hid)
    refine ⟨hold.memberTraceIds.trans hmembers.symm, ?_, hold.memberCount⟩
    exact List.mem_filter.mpr ⟨hold.representative, hkept rfl⟩

theorem Consistent.finalizeRun (hconsistent : Consistent db) {summary : RunSummary}
    {retentionCutoff : Int} {purgedCount : Nat}
    (hok : finalizeRun db claim summary retentionCutoff clock = .ok (purgedCount, db')) :
    Consistent db' := by
  obtain ⟨-, hrest⟩ := assertClaim_bind hok
  obtain ⟨⟨⟨⟩, updated⟩, hupdate, hreturn⟩ := Outcome.bind_eq_ok hrest
  obtain rfl := (Prod.mk.inj (Except.ok.inj hreturn)).2
  have hpurged := (updateRun_kept hupdate).consistent (hconsistent.purge retentionCutoff)
  have hreleased : StoreKept updated (releaseLease updated claim clock.written) := ⟨rfl, rfl, rfl⟩
  exact hreleased.consistent hpurged

theorem failRun_kept {summary : RunSummary} (hok : failRun db claim summary clock = .ok ((), db')) :
    StoreKept db db' := by
  obtain ⟨-, hrest⟩ := assertClaim_bind hok
  obtain ⟨⟨⟨⟩, updated⟩, hupdate, hreturn⟩ := Outcome.bind_eq_ok hrest
  obtain rfl := (Prod.mk.inj (Except.ok.inj hreturn)).2
  obtain ⟨hcandidates, hmembers, hgolden⟩ := updateRun_kept hupdate
  exact ⟨hcandidates, hmembers, hgolden⟩

theorem renewClaim_kept {ttl : Int} {renewed : Bool}
    (hok : renewClaim db claim ttl clock = .ok (renewed, db')) : StoreKept db db' := by
  unfold renewClaim at hok
  split at hok
  · cases hok
  · obtain rfl := (Prod.mk.inj (Except.ok.inj hok)).2
    exact ⟨rfl, rfl, rfl⟩

theorem storeCachedEmbeddings_kept {providerName embeddingModel inputVersion : String}
    {embeddings : List (String × List Double)}
    (hok : storeCachedEmbeddings db claim providerName embeddingModel inputVersion embeddings clock =
      .ok ((), db')) : StoreKept db db' := by
  unfold storeCachedEmbeddings at hok
  split at hok
  · obtain rfl := (Prod.mk.inj (Except.ok.inj hok)).2
    exact ⟨rfl, rfl, rfl⟩
  · obtain ⟨-, hrest⟩ := assertClaim_bind hok
    obtain ⟨cache, -, hreturn⟩ := Outcome.bind_eq_ok hrest
    obtain rfl := (Prod.mk.inj (Except.ok.inj hreturn)).2
    exact ⟨rfl, rfl, rfl⟩

/-- The ways in which a call of `merge_candidate_members` ends. -/
theorem mergeCandidateMembers_cases {sourceFingerprint : String} {memberTraceIds : List String}
    {facts : ClusterFacts} {merged : Bool}
    (hok : mergeCandidateMembers db claim sourceFingerprint memberTraceIds facts clock =
      .ok (merged, db')) :
    (sourceFingerprint ∉ db.candidates.map CandidateRow.sourceFingerprint ∧ db' = db) ∨
      ∃ candidate ∈ db.candidates, candidate.sourceFingerprint = sourceFingerprint ∧
        db' = mergeMembers db candidate.candidateId memberTraceIds facts clock.began := by
  obtain ⟨-, hrest⟩ := assertClaim_bind hok
  split at hrest
  · next hnone =>
      obtain rfl := (Prod.mk.inj (Except.ok.inj hrest)).2
      refine .inl ⟨fun hmem => ?_, rfl⟩
      obtain ⟨row, hrow, hfingerprint⟩ := List.mem_map.mp hmem
      have hother := List.find?_eq_none.mp hnone row hrow
      simp [hfingerprint] at hother
  · next candidate hcandidate =>
      obtain rfl := (Prod.mk.inj (Except.ok.inj hrest)).2
      have hfingerprint := List.find?_some hcandidate
      exact .inr ⟨candidate, List.mem_of_find?_eq_some hcandidate, by simpa using hfingerprint, rfl⟩

/-- Every transaction under a claim keeps the store consistent. -/
theorem Consistent.commit (hconsistent : Consistent db) {operation : Operation}
    (hcommit : operation.commit db claim clock = some db') : Consistent db' := by
  cases operation with
  | renewClaim ttl =>
      obtain ⟨_, hok⟩ := committed_eq_some hcommit
      exact (renewClaim_kept hok).consistent hconsistent
  | storeCachedEmbeddings providerName embeddingModel inputVersion embeddings =>
      obtain ⟨_, hok⟩ := committed_eq_some hcommit
      exact (storeCachedEmbeddings_kept hok).consistent hconsistent
  | mergeCandidateMembers sourceFingerprint memberTraceIds facts =>
      obtain ⟨_, hok⟩ := committed_eq_some hcommit
      obtain ⟨-, rfl⟩ | ⟨candidate, -, -, rfl⟩ := mergeCandidateMembers_cases hok
      · exact hconsistent
      · exact hconsistent.mergeMembers facts clock.began
  | persistCandidate candidate candidateId caseId =>
      obtain ⟨_, hok⟩ := committed_eq_some hcommit
      exact hconsistent.persistCandidate hok
  | finalizeRun summary retentionCutoff =>
      obtain ⟨_, hok⟩ := committed_eq_some hcommit
      exact hconsistent.finalizeRun hok
  | failRun summary =>
      obtain ⟨_, hok⟩ := committed_eq_some hcommit
      exact (failRun_kept hok).consistent hconsistent

/-! ### Retries -/

/-- What of the store a repeated call leaves as it is: the members, and each candidate's list, count and
golden case. -/
def ledger (db : Database) :
    List MemberRow × List (Uuid × List String × Option Jsonb × Option Uuid) :=
  (db.members, db.candidates.map fun row =>
    (row.candidateId, row.memberTraceIds, row.provenance.get "member_count", row.goldenCaseId))

theorem StoreKept.ledger (hkept : StoreKept db db') : ledger db' = ledger db := by
  unfold LogMiner.ledger
  rw [hkept.candidates, hkept.members]

/-- A merge of members that are there already changes nothing in the ledger. -/
theorem ledger_mergeMembers (hconsistent : Consistent db) {candidateId : Uuid}
    {memberTraceIds : List String}
    (hall : ∀ traceId ∈ memberTraceIds, (⟨candidateId, traceId⟩ : MemberRow) ∈ db.members)
    (facts : ClusterFacts) (now : Int) :
    ledger (mergeMembers db candidateId memberTraceIds facts now) = ledger db := by
  have hmembers : (mergeMembers db candidateId memberTraceIds facts now).members = db.members := by
    rw [mergeMembers_members]
    exact addMembers_of_mem fun traceId hmem => hall traceId (mem_sortedTraceIds.mp hmem)
  unfold ledger
  rw [hmembers, mergeMembers_candidates]
  congr 1
  unfold Table.update
  rw [List.map_map]
  refine List.map_congr_left fun row hrow => ?_
  rw [Function.comp_apply]
  split
  · next hid =>
      rw [beq_iff_eq] at hid
      subst hid
      obtain ⟨hids, -, hcount⟩ := hconsistent.counted row hrow
      have hsame : (mergedRow db row.candidateId memberTraceIds facts now row).memberTraceIds =
          row.memberTraceIds := by
        rw [hids]
        exact congrArg (membersOf · row.candidateId) hmembers
      rw [mergedRow_memberCount, hsame, hcount]
      rfl
  · rfl

/-- The candidate of a fingerprint has the members. -/
def HasMembers (db : Database) (sourceFingerprint : String) (traceIds : List String) : Prop :=
  ∃ row ∈ db.candidates, row.sourceFingerprint = sourceFingerprint ∧
    ∀ traceId ∈ traceIds, (⟨row.candidateId, traceId⟩ : MemberRow) ∈ db.members

theorem hasMembers_mergeMembers {row : CandidateRow} (hrow : row ∈ db.candidates) (traceIds : List String)
    (facts : ClusterFacts) (now : Int) :
    HasMembers (mergeMembers db row.candidateId traceIds facts now) row.sourceFingerprint traceIds := by
  refine ⟨mergedRow db row.candidateId traceIds facts now row, ?_, rfl, fun traceId hmem =>
    (mem_mergeMembers_members _ _ _ _ _).mpr (.inr ⟨rfl, hmem⟩)⟩
  rw [mergeMembers_candidates]
  exact Table.mem_update.mpr (.inl ⟨row, hrow, by simp, rfl⟩)

theorem persistCandidate_hasMembers {candidate : Candidate} {candidateId caseId : Uuid}
    {result : PersistResult}
    (hok : persistCandidate db claim candidate candidateId caseId clock = .ok (result, db')) :
    HasMembers db' candidate.sourceFingerprint candidate.allTraceIds := by
  obtain ⟨existing, facts, hexisting, hfingerprint, rfl⟩ |
    ⟨row, facts, merged, hrow, -, -, hmerged, hstatus⟩ := persistCandidate_cases hok
  · rw [← hfingerprint]
    exact hasMembers_mergeMembers hexisting candidate.allTraceIds facts clock.began
  have hinserted : row ∈ (db.inserted row).candidates := List.mem_append_right _ List.mem_cons_self
  have hhas := hasMembers_mergeMembers hinserted candidate.allTraceIds facts clock.began
  have hfingerprint : row.sourceFingerprint = candidate.sourceFingerprint := by rw [hrow]; rfl
  rw [← hmerged, hfingerprint] at hhas
  obtain ⟨-, rfl⟩ | ⟨-, linked, hpromote⟩ := hstatus
  · exact hhas
  · obtain ⟨hmembers, -, -, hcandidates⟩ := promote_spec hpromote
    obtain ⟨merged', hmerged', hmergedFingerprint, hall⟩ := hhas
    rw [← hmembers] at hall
    cases hid : merged'.candidateId == row.candidateId with
    | true =>
        refine ⟨{ merged' with goldenCaseId := some linked, updatedAt := clock.began }, ?_,
          hmergedFingerprint, hall⟩
        rw [hcandidates]
        exact Table.mem_update.mpr (.inl ⟨merged', hmerged', hid, rfl⟩)
    | false =>
        refine ⟨merged', ?_, hmergedFingerprint, hall⟩
        rw [hcandidates]
        exact Table.mem_update.mpr (.inr ⟨hmerged', hid⟩)

/-- A merge for a fingerprint whose candidate has the members changes nothing in the ledger. -/
theorem ledger_of_hasMembers (hconsistent : Consistent db) {row : CandidateRow} (hrow : row ∈ db.candidates)
    {traceIds : List String} (hhas : HasMembers db row.sourceFingerprint traceIds) (facts : ClusterFacts)
    (now : Int) : ledger (mergeMembers db row.candidateId traceIds facts now) = ledger db := by
  obtain ⟨row', hrow', hfingerprint, hall⟩ := hhas
  obtain rfl : row' = row := List.inj_on_of_nodup_map hconsistent.fingerprints hrow' hrow hfingerprint
  exact ledger_mergeMembers hconsistent hall facts now

/-- A lease that was given up is not active. -/
theorem claimIsActive_released (claim : RunClaim) (written now : Int) :
    claimIsActive (releaseLease db claim written) claim now = false := by
  rw [← Bool.not_eq_true]
  intro hactive
  obtain ⟨lease, hlease, hname, owner, howner, hrun, htoken⟩ := World.mem_holders_of_active hactive
  obtain ⟨old, -, -, rfl⟩ | ⟨-, hother⟩ := Table.mem_update.mp hlease
  · cases howner
  · simp [hname, howner, hrun, htoken] at hother

/-- The same call, for which the database draws other ids. -/
def Operation.redraw (candidateId caseId : Uuid) : Operation → Operation
  | .persistCandidate candidate _ _ => .persistCandidate candidate candidateId caseId
  | operation => operation

/-- The same call again is refused or leaves the ledger as it is. -/
theorem ledger_retry (hconsistent : Consistent db) {operation : Operation} {retried : TxClock}
    (candidateId caseId : Uuid) (hcommit : operation.commit db claim clock = some db') :
    ledger (((operation.redraw candidateId caseId).commit db' claim retried).getD db') = ledger db' := by
  have hconsistent' := hconsistent.commit hcommit
  cases hretry : (operation.redraw candidateId caseId).commit db' claim retried with
  | none => rfl
  | some db'' =>
      rw [Option.getD_some]
      cases operation with
      | renewClaim ttl =>
          obtain ⟨_, hok⟩ := committed_eq_some hretry
          exact (renewClaim_kept hok).ledger
      | storeCachedEmbeddings providerName embeddingModel inputVersion embeddings =>
          obtain ⟨_, hok⟩ := committed_eq_some hretry
          exact (storeCachedEmbeddings_kept hok).ledger
      | failRun summary =>
          obtain ⟨_, hok⟩ := committed_eq_some hretry
          exact (failRun_kept hok).ledger
      | mergeCandidateMembers sourceFingerprint memberTraceIds facts =>
          obtain ⟨_, hfirst⟩ := committed_eq_some hcommit
          obtain ⟨_, hsecond⟩ := committed_eq_some hretry
          obtain ⟨-, rfl⟩ | ⟨row, hrow, rfl, rfl⟩ := mergeCandidateMembers_cases hsecond
          · rfl
          · obtain ⟨hmissing, rfl⟩ | ⟨first, hmem, hfingerprint, rfl⟩ := mergeCandidateMembers_cases hfirst
            · exact absurd (List.mem_map_of_mem hrow) hmissing
            · apply ledger_of_hasMembers hconsistent' hrow
              rw [← hfingerprint]
              exact hasMembers_mergeMembers hmem memberTraceIds facts clock.began
      | persistCandidate candidate firstId firstCaseId =>
          obtain ⟨_, hfirst⟩ := committed_eq_some hcommit
          obtain ⟨_, hsecond⟩ := committed_eq_some hretry
          have hhas := persistCandidate_hasMembers hfirst
          obtain ⟨row, facts, hrow, hfingerprint, rfl⟩ | ⟨row, facts, merged, rfl, -, hfresh, -⟩ :=
            persistCandidate_cases hsecond
          · rw [← hfingerprint] at hhas
            exact ledger_of_hasMembers hconsistent' hrow hhas facts retried.began
          · obtain ⟨present, hpresent, hfingerprint, -⟩ := hhas
            refine absurd ?_ hfresh
            exact List.mem_map.mpr ⟨present, hpresent, hfingerprint⟩
      | finalizeRun summary retentionCutoff =>
          obtain ⟨_, hfirst⟩ := committed_eq_some hcommit
          obtain ⟨_, hsecond⟩ := committed_eq_some hretry
          obtain ⟨-, hrest⟩ := assertClaim_bind hfirst
          obtain ⟨⟨⟨⟩, updated⟩, -, hreturn⟩ := Outcome.bind_eq_ok hrest
          obtain rfl := (Prod.mk.inj (Except.ok.inj hreturn)).2
          obtain ⟨hactive, -⟩ := assertClaim_bind hsecond
          rw [claimIsActive_released] at hactive
          cases hactive

/-! ### Runs -/

namespace World

variable {w w' : World}

theorem claimRun_kept {request : ClaimRequest} {runId claimToken : Uuid} {result : Option RunClaim}
    (hok : LogMiner.claimRun db request runId claimToken clock = .ok (result, db')) :
    StoreKept db db' := by
  unfold LogMiner.claimRun at hok
  dsimp only at hok
  split at hok
  · cases hok
  · split at hok
    · cases hok
    · split at hok
      · obtain ⟨-, rfl⟩ := Prod.mk.inj (Except.ok.inj hok)
        exact ⟨rfl, rfl, rfl⟩
      · split at hok
        · cases hok
        · obtain ⟨-, rfl⟩ := Prod.mk.inj (Except.ok.inj hok)
          exact ⟨rfl, rfl, rfl⟩

theorem recordSkippedRun_kept {request : ClaimRequest} {reason : String} {runId skipped : Uuid}
    (hok : LogMiner.recordSkippedRun db request reason runId clock = .ok (skipped, db')) :
    StoreKept db db' := by
  unfold LogMiner.recordSkippedRun at hok
  split at hok
  · obtain ⟨-, rfl⟩ := Prod.mk.inj (Except.ok.inj hok)
    exact ⟨rfl, rfl, rfl⟩
  · cases hok

theorem consistent_next {e : Event} (hconsistent : Consistent w.db) (hstep : w.next e = some w') :
    Consistent w'.db := by
  cases next_effect hstep with
  | idle => exact hconsistent
  | claimRefused hok => exact (claimRun_kept hok).consistent hconsistent
  | claimGranted hok => exact (claimRun_kept hok).consistent hconsistent
  | runSkipped hok => exact (recordSkippedRun_kept hok).consistent hconsistent
  | committed _ hcommit => exact hconsistent.commit hcommit

/-- In every run from the migrated database the candidate store is consistent, and the last call of a
transaction may be repeated without a trace in members, counts and links. -/
theorem candidates_consistent_run {golden : List GoldenRow} {logs : List LogRow} {start : Int} {es : List Event}
    (hrun : Run (Steps World.next) (World.initial (Database.migrated golden logs) start) es w) :
    (w.db.candidates.map CandidateRow.sourceFingerprint).Nodup ∧
    (∀ row ∈ w.db.candidates,
      row.memberTraceIds.Pairwise (· < ·) ∧
      (∀ traceId, traceId ∈ row.memberTraceIds ↔ ⟨row.candidateId, traceId⟩ ∈ w.db.members) ∧
      row.representativeTraceId ∈ row.memberTraceIds ∧
      row.provenance.get "member_count" = some (.int row.memberTraceIds.length) ∧
      (row.status = .promoted ↔ ∃ case ∈ w.db.golden, row.goldenCaseId = some case.caseId ∧
        case.sourceFingerprint = some row.sourceFingerprint)) ∧
    ∀ claim (operation : Operation) clock db retried candidateId caseId,
      operation.commit w.db claim clock = some db →
      ledger (((operation.redraw candidateId caseId).commit db claim retried).getD db) = ledger db := by
  have hconsistent : Consistent w.db := by
    apply hrun.invariant (fun w => Consistent w.db) (consistent_migrated golden logs)
    exact fun _ _ _ h hstep => consistent_next h hstep
  refine ⟨hconsistent.fingerprints, fun row hrow => ?_, fun claim operation clock db retried candidateId
    caseId hcommit => ledger_retry hconsistent candidateId caseId hcommit⟩
  obtain ⟨hids, hrepresentative, hcount⟩ := hconsistent.counted row hrow
  obtain ⟨hpromoted, hpending⟩ := hconsistent.linked row hrow
  refine ⟨?_, fun traceId => ?_, ?_, hcount, hpromoted, ?_⟩
  · rw [hids]
    exact membersOf_sorted hconsistent.members row.candidateId
  · rw [hids]
    exact mem_membersOf
  · rw [hids]
    exact mem_membersOf.mpr hrepresentative
  · rintro ⟨case, -, hlinked, -⟩
    cases hstatus : row.status with
    | promoted => rfl
    | pendingReview =>
        rw [hpending hstatus] at hlinked
        cases hlinked

/-- A candidate that the review promoted at once, with one trace. -/
def promotedCandidate : Candidate where
  sourceFingerprint := "8f434346"
  featureScope := "sql-agent"
  userInput := "orders by month"
  representativeTraceId := "trace-1"
  memberTraceIds := []
  clusterLabel := some 0
  isNoise := false
  outlierScore := none
  expectedOutput := .obj []
  difficultyRating := .hard
  labelConfidence := 0
  status := .promoted
  provenance := []

/-- A run that mines one candidate and promotes it. -/
theorem candidates_consistent_run_promotion :
    ∃ w : World, w.db.candidates.map CandidateRow.status = [.promoted] ∧
      (w.db.candidates.map CandidateRow.sourceFingerprint).Nodup ∧
      ∀ row ∈ w.db.candidates, ∃ case ∈ w.db.golden, row.goldenCaseId = some case.caseId ∧
        case.sourceFingerprint = some row.sourceFingerprint := by
  let claim := productionRequest.claim 0 100 1
  have hrun : ∃ w, Run (Steps World.next) (World.initial (Database.migrated [] []) 0)
      [.claimRun 0 productionRequest 0 100 (instant 1),
        .fenced 0 claim (.persistCandidate promotedCandidate 7 8) (instant 2)] w ∧
      w.db.candidates.map CandidateRow.status = [.promoted] :=
    ⟨_, run_iff_foldlM.mpr rfl, rfl⟩
  obtain ⟨w, hrun, hstatus⟩ := hrun
  obtain ⟨hfingerprints, hrows, -⟩ := candidates_consistent_run hrun
  refine ⟨w, hstatus, hfingerprints, fun row hrow => ?_⟩
  obtain ⟨-, -, -, -, hlinked⟩ := hrows row hrow
  have hmem : row.status ∈ w.db.candidates.map CandidateRow.status := List.mem_map_of_mem hrow
  rw [hstatus, List.mem_singleton] at hmem
  exact hlinked.mp hmem

end World

end CoreMesh.LogMiner
