import CoreMesh.LogMiner.EmbeddingReuse

/-!
# Embeddings that can be normalized

When a run returns a matrix. A vector of finite numbers that is not zero has a norm, but a float64 for it
need not be: it can be too large or too small, and then the vector is not normalized to one that can be
normalized again.
-/

namespace CoreMesh.LogMiner

open Outcome PyText

variable {F : Type}

namespace Numpy

/-- Finite numbers of which one is not zero. -/
structure Valid (numpy : Numpy F) (width : ℕ) (vector : List F) : Prop where
  length : vector.length = width
  finite : ∀ x ∈ vector, numpy.isFinite x = true
  nonzero : ∃ x ∈ vector, numpy.isZero x = false

/-- The vector has a norm, and so does what it is normalized to. -/
structure Steady (numpy : Numpy F) (vector : List F) : Prop where
  accepts : numpy.Accepts vector
  again : numpy.Accepts (numpy.normalize vector)

theorem Valid.rectangular {numpy : Numpy F} {width : ℕ} {vectors : List (List F)} (hne : vectors ≠ [])
    (hvalid : ∀ vector ∈ vectors, numpy.Valid width vector) : Rectangular vectors := by
  obtain ⟨first, hfirst⟩ := List.exists_mem_of_ne_nil vectors hne
  obtain ⟨x, hx, -⟩ := (hvalid first hfirst).nonzero
  refine ⟨width, ?_, fun vector hvector => (hvalid vector hvector).length⟩
  rw [← (hvalid first hfirst).length]
  exact List.length_pos_of_mem hx

end Numpy

namespace Embedder

/-- The provider returns one valid vector for each text, and all have the width. -/
def Provides (e : Embedder F) (width : ℕ) : Prop :=
  ∀ call texts, ∃ vectors, e.embed call texts = some vectors ∧ vectors.length = texts.length ∧
    ∀ vector ∈ vectors, e.numpy.Valid width vector

/-- The lease is held throughout. -/
def Active (e : Embedder F) : Prop := ∀ checkpoint, e.active checkpoint = true

variable {e : Embedder F} {records : List InteractionRecord} {canonicals : List (String × String)}
  {cached : List (String × List F)} {width : ℕ}

/-! ### The last lines -/

section Finish

variable {calls : List (List String)} {embedded : List String} {fresh : List (String × List F)}

/-- The last lines return a matrix if each vector can be normalized again. -/
theorem Sourced.finish_ok_iff (hactive : e.Active) (hrecords : records ≠ [])
    (hsourced : Sourced e records calls embedded (cached ++ fresh))
    (hkeys : ∀ entry ∈ cached ++ fresh, ∃ record ∈ records, entry.1 = e.fingerprint record)
    (hrectangular : Numpy.Rectangular ((cached ++ fresh).map Prod.snd)) :
    (∃ matrix, (e.finish records calls embedded cached fresh).result = .ok matrix) ↔
      ∀ entry ∈ cached ++ fresh, e.numpy.Accepts entry.2 := by
  obtain ⟨rows, toStore, hrows, -, hfinish⟩ := hsourced.finish_eq
  rw [hfinish]
  simp only [hactive _, Bool.and_self, Bool.not_true, Bool.and_false, Bool.false_eq_true, if_false]
  have hvectors : ∀ row ∈ rows, row ∈ (cached ++ fresh).map Prod.snd := by
    intro row hrow
    obtain ⟨record, -, hentry⟩ := exists_of_mem_right hrows hrow
    exact List.mem_map_of_mem hentry
  constructor
  · rintro ⟨matrix, hok⟩ entry hentry
    obtain ⟨-, -, -, haccepts, -⟩ := Numpy.validate_eq_ok_iff.mp hok
    obtain ⟨record, hrecord, hkey⟩ := hkeys entry hentry
    obtain ⟨row, hrow, hfound⟩ := exists_of_mem_left hrows hrecord
    rw [← hsourced.of_same_key hfound hentry hkey.symm]
    exact haccepts row hrow
  · intro haccepts
    obtain ⟨width, hpos, hwidth⟩ := hrectangular
    refine ⟨rows.map e.numpy.normalize, Numpy.validate_eq_ok_iff.mpr ⟨?_, ⟨width, hpos, ?_⟩,
      hrows.length_eq.symm, ?_, rfl⟩⟩
    · rintro rfl
      exact hrecords (List.length_eq_zero_iff.mp hrows.length_eq)
    · intro row hrow
      exact hwidth row (hvectors row hrow)
    · intro row hrow
      obtain ⟨entry, hentry, rfl⟩ := List.mem_map.mp (hvectors row hrow)
      exact haccepts entry hentry

end Finish

/-! ### The provider's answers -/

/-- What the provider answers in a call for some of the prompts can be normalized twice. -/
def SteadyAnswers (e : Embedder F) (canonicals : List (String × String)) (call : ℕ)
    (fingerprints : List String) : Prop :=
  ∀ texts raw, fingerprints.mapM (fun fingerprint => canonicals.lookup fingerprint) = some texts →
    e.embed call texts = some raw → ∀ vector ∈ raw, e.numpy.Steady vector

section Answers

variable {call : ℕ} {fingerprints texts : List String} {raw : List (List F)}

/-- A call that can be used, but for the norms of its vectors. -/
structure Reply (e : Embedder F) (canonicals : List (String × String)) (call : ℕ) (fingerprints : List String)
    (width : ℕ) (texts : List String) (raw : List (List F)) : Prop where
  nonempty : fingerprints ≠ []
  lookups : fingerprints.mapM (fun fingerprint => canonicals.lookup fingerprint) = some texts
  answer : e.embed call texts = some raw
  length : raw.length = fingerprints.length
  valid : ∀ vector ∈ raw, e.numpy.Valid width vector

theorem steadyAnswers_nil (hprovides : e.Provides width) (canonicals : List (String × String)) (call : ℕ) :
    SteadyAnswers e canonicals call [] := by
  intro texts raw htexts hraw vector hvector
  obtain rfl : texts = [] := (Option.some.inj htexts).symm
  obtain ⟨vectors, hvectors, hlength, -⟩ := hprovides call []
  rw [hraw] at hvectors
  obtain rfl := Option.some.inj hvectors
  rw [List.length_eq_zero_iff.mp hlength] at hvector
  cases hvector

theorem exists_reply (hprovides : e.Provides width) (hcanonicals : e.Canonicalizes records canonicals)
    (hne : fingerprints ≠ []) (hknown : ∀ fingerprint ∈ fingerprints, fingerprint ∈ canonicals.map Prod.fst)
    (call : ℕ) : ∃ texts raw, Reply e canonicals call fingerprints width texts raw := by
  have hfound : ∀ fingerprint ∈ fingerprints, ∃ text, canonicals.lookup fingerprint = some text := by
    intro fingerprint hmem
    obtain ⟨entry, hentry, rfl⟩ := List.mem_map.mp (hknown fingerprint hmem)
    obtain ⟨record, hrecord, rfl⟩ := hcanonicals.source entry hentry
    exact ⟨_, hcanonicals.lookup record hrecord⟩
  obtain ⟨texts, htexts⟩ : ∃ texts, fingerprints.mapM (fun fingerprint => canonicals.lookup fingerprint) =
      some texts := ⟨_, mapM_eq_some_iff.mpr ⟨hfound, rfl⟩⟩
  obtain ⟨raw, hraw, hlength, hvalid⟩ := hprovides call texts
  refine ⟨texts, raw, hne, htexts, hraw, ?_, hvalid⟩
  rw [hlength, (mapM_eq_some_iff_forall₂.mp htexts).length_eq]

namespace Reply

variable (hreply : Reply e canonicals call fingerprints width texts raw)

include hreply

theorem raw_ne_nil : raw ≠ [] := by
  rw [← List.length_pos_iff, hreply.length]
  exact List.length_pos_iff.mpr hreply.nonempty

theorem asked (haccepts : ∀ vector ∈ raw, e.numpy.Accepts vector) :
    Asked e canonicals call fingerprints texts raw where
  nonempty := hreply.nonempty
  lookups := mapM_eq_some_iff_forall₂.mp hreply.lookups
  answer := hreply.answer
  length := hreply.length
  rectangular := Numpy.Valid.rectangular hreply.raw_ne_nil hreply.valid
  accepts := haccepts

theorem steadyAnswers_iff :
    SteadyAnswers e canonicals call fingerprints ↔ ∀ vector ∈ raw, e.numpy.Steady vector := by
  constructor
  · intro hsteady
    exact hsteady texts raw hreply.lookups hreply.answer
  · intro hsteady texts' raw' htexts' hraw'
    rw [hreply.lookups] at htexts'
    obtain rfl := Option.some.inj htexts'
    rw [hreply.answer] at hraw'
    obtain rfl := Option.some.inj hraw'
    exact hsteady

theorem embedFingerprints_eq (hactive : e.Active) (haccepts : ∀ vector ∈ raw, e.numpy.Accepts vector) :
    e.embedFingerprints canonicals call fingerprints =
      { vectors := .ok (fingerprints.zip (raw.map e.numpy.normalize)), calls := [texts] } := by
  have hsome : fingerprints.isEmpty = false := by simpa using hreply.nonempty
  have hvalidate : e.numpy.validateAndNormalizeEmbeddings raw (some fingerprints.length) =
      .ok (raw.map e.numpy.normalize) :=
    Numpy.validate_eq_ok_iff.mpr ⟨hreply.raw_ne_nil, (hreply.asked haccepts).rectangular, hreply.length,
      haccepts, rfl⟩
  unfold embedFingerprints
  simp only [hsome, hactive _, Bool.false_eq_true, if_false, Bool.not_true, hreply.lookups, hreply.answer,
    hvalidate]
  rfl

/-- The vectors of a call that is used have norms. -/
theorem accepts_of_ok {vectors : List (String × List F)}
    (hok : (e.embedFingerprints canonicals call fingerprints).vectors = .ok vectors) :
    ∀ vector ∈ raw, e.numpy.Accepts vector := by
  obtain ⟨texts', raw', hasked, -, -⟩ := embedFingerprints_ok hreply.nonempty hok
  have htexts := mapM_eq_some_iff_forall₂.mpr hasked.lookups
  rw [hreply.lookups] at htexts
  obtain rfl := Option.some.inj htexts
  have hraw := hasked.answer
  rw [hreply.answer] at hraw
  obtain rfl := Option.some.inj hraw
  exact hasked.accepts

theorem lengths : ∀ entry ∈ fingerprints.zip (raw.map e.numpy.normalize), entry.2.length = width := by
  intro entry hentry
  obtain ⟨vector, hvector, heq⟩ := List.mem_map.mp (List.of_mem_zip hentry).2
  rw [← heq, Numpy.length_normalize, (hreply.valid vector hvector).length]

/-- Each vector of the call is under a key. -/
theorem forall_vectors_iff {P : List F → Prop} :
    (∀ entry ∈ fingerprints.zip (raw.map e.numpy.normalize), P entry.2) ↔
      ∀ vector ∈ raw, P (e.numpy.normalize vector) := by
  have hsnd : (fingerprints.zip (raw.map e.numpy.normalize)).map Prod.snd = raw.map e.numpy.normalize := by
    rw [List.map_snd_zip]
    rw [List.length_map, hreply.length]
  rw [← List.forall_mem_map (f := Prod.snd) (P := P), hsnd, List.forall_mem_map]

end Reply

end Answers

/-! ### The vectors of a run -/

/-- There are other prompts than those of the cache, and the provider's width is not that of the cache. -/
def WidthChanges (canonicals : List (String × String)) (cached : List (String × List F)) (width : ℕ) : Prop :=
  missing canonicals cached ≠ [] ∧ ∃ entry ∈ cached, entry.2.length ≠ width

/-- The vectors that are used can all be normalized again: those of the cache unless the width changes, and
what the provider answers. -/
structure VectorsSteady (e : Embedder F) (canonicals : List (String × String))
    (cached : List (String × List F)) (width : ℕ) : Prop where
  missing : SteadyAnswers e canonicals 0 (missing canonicals cached)
  kept : ¬WidthChanges canonicals cached width → ∀ entry ∈ cached, e.numpy.Accepts entry.2
  recomputed : WidthChanges canonicals cached width → SteadyAnswers e canonicals 1 (cached.map Prod.fst)

theorem widths_eq_singleton {vectors : List (String × List F)} (hne : vectors ≠ [])
    (hall : ∀ entry ∈ vectors, entry.2.length = width) : widths vectors = {width} := by
  ext n
  rw [widths, List.mem_toFinset, List.mem_map, Finset.mem_singleton]
  constructor
  · rintro ⟨entry, hentry, rfl⟩
    exact hall entry hentry
  · rintro rfl
    obtain ⟨first, hfirst⟩ := List.exists_mem_of_ne_nil vectors hne
    exact ⟨first, hfirst, hall first hfirst⟩

theorem rewidened_iff (hcached : FromCache e canonicals cached) {fresh : List (String × List F)}
    (hfresh : fresh ≠ []) (hwidth : ∀ entry ∈ fresh, entry.2.length = width) :
    rewidened cached fresh = true ↔ ∃ entry ∈ cached, entry.2.length ≠ width := by
  unfold rewidened
  rw [widths_eq_singleton hfresh hwidth]
  by_cases hne : cached = []
  · simp [hne]
  · obtain ⟨old, -, hold⟩ := hcached.rectangular
    rw [List.forall_mem_map] at hold
    obtain ⟨first, hfirst⟩ := List.exists_mem_of_ne_nil cached hne
    have hsome : (!cached.isEmpty) = true := by simpa using hne
    have hnew : (!fresh.isEmpty) = true := by simpa using hfresh
    rw [widths_eq_singleton hne hold, hsome, hnew, Bool.true_and, Bool.true_and, decide_eq_true_iff, ne_eq,
      Finset.singleton_inj]
    constructor
    · intro hchanged
      refine ⟨first, hfirst, ?_⟩
      rw [hold first hfirst]
      exact fun heq => hchanged heq.symm
    · rintro ⟨entry, hentry, hlength⟩ heq
      exact hlength ((hold entry hentry).trans heq.symm)

theorem keys_of_records (hcanonicals : e.Canonicalizes records canonicals) {fingerprint : String}
    (hmem : fingerprint ∈ canonicals.map Prod.fst) : ∃ record ∈ records, fingerprint = e.fingerprint record := by
  obtain ⟨entry, hentry, rfl⟩ := List.mem_map.mp hmem
  obtain ⟨record, hrecord, heq⟩ := hcanonicals.source entry hentry
  exact ⟨record, hrecord, by rw [heq]⟩

theorem known_of_cached (hcached : FromCache e canonicals cached) :
    ∀ fingerprint ∈ cached.map Prod.fst, fingerprint ∈ canonicals.map Prod.fst := by
  rw [List.forall_mem_map]
  exact hcached.known

theorem Reply.width_pos {call : ℕ} {fingerprints texts : List String} {raw : List (List F)}
    (hreply : Reply e canonicals call fingerprints width texts raw) : 0 < width := by
  obtain ⟨first, hfirst⟩ := List.exists_mem_of_ne_nil raw hreply.raw_ne_nil
  obtain ⟨x, hx, -⟩ := (hreply.valid first hfirst).nonzero
  rw [← (hreply.valid first hfirst).length]
  exact List.length_pos_of_mem hx

theorem Reply.zip_ne_nil {call : ℕ} {fingerprints texts : List String} {raw : List (List F)}
    (hreply : Reply e canonicals call fingerprints width texts raw) :
    fingerprints.zip (raw.map e.numpy.normalize) ≠ [] := by
  rw [← List.length_pos_iff, List.length_zip, List.length_map, hreply.length, min_self]
  exact List.length_pos_iff.mpr hreply.nonempty

/-- The keys of the missing and the cached prompts are those of records. -/
theorem keys_of_entries (hcanonicals : e.Canonicalizes records canonicals)
    (hcached : FromCache e canonicals cached) {entries : List (String × List F)}
    (hentries : ∀ entry ∈ entries, entry.1 ∈ missing canonicals cached ∨ entry.1 ∈ cached.map Prod.fst) :
    ∀ entry ∈ entries, ∃ record ∈ records, entry.1 = e.fingerprint record := by
  intro entry hentry
  obtain hmissing | hold := hentries entry hentry
  · exact keys_of_records hcanonicals (mem_missing_iff.mp hmissing).1
  · exact keys_of_records hcanonicals (known_of_cached hcached _ hold)

theorem rectangular_of_width {entries : List (String × List F)} (hpos : 0 < width)
    (hentries : ∀ entry ∈ entries, entry.2.length = width) :
    Numpy.Rectangular (entries.map Prod.snd) := by
  refine ⟨width, hpos, ?_⟩
  rw [List.forall_mem_map]
  exact hentries

section Cases

variable (hactive : e.Active) (hrecords : records ≠ [])
  (hcanonicals : e.Canonicalizes records canonicals) (hcached : FromCache e canonicals cached)

include hactive hrecords hcanonicals hcached

/-- All prompts are in the cache. -/
theorem ok_iff_of_cache (hnone : missing canonicals cached = []) :
    (∃ matrix, (e.embedMissing records canonicals cached).result = .ok matrix) ↔
      ∀ entry ∈ cached, e.numpy.Accepts entry.2 := by
  have hfinish : e.embedMissing records canonicals cached = e.finish records [] [] cached [] := by
    unfold embedMissing
    simp only [hnone, embedFingerprints_nil, rewidened_nil, Bool.false_eq_true, if_false]
  rw [hfinish, (sourced_of_cache hcanonicals hcached hnone).finish_ok_iff hactive hrecords]
  · rw [List.append_nil]
  · rw [List.append_nil]
    exact keys_of_entries hcanonicals hcached fun entry hentry => .inr (List.mem_map_of_mem hentry)
  · rw [List.append_nil]
    exact hcached.rectangular

/-- The cache has some of the prompts, in the width of the provider. -/
theorem ok_iff_of_first {texts : List String} {raw : List (List F)}
    (hreply : Reply e canonicals 0 (missing canonicals cached) width texts raw)
    (haccepts : ∀ vector ∈ raw, e.numpy.Accepts vector)
    (hsame : ∀ entry ∈ cached, entry.2.length = width) :
    (∃ matrix, (e.embedMissing records canonicals cached).result = .ok matrix) ↔
      (∀ entry ∈ cached, e.numpy.Accepts entry.2) ∧
        ∀ vector ∈ raw, e.numpy.Accepts (e.numpy.normalize vector) := by
  have hkept : ¬rewidened cached ((missing canonicals cached).zip (raw.map e.numpy.normalize)) = true := by
    rw [rewidened_iff hcached hreply.zip_ne_nil hreply.lengths]
    rintro ⟨entry, hentry, hlength⟩
    exact hlength (hsame entry hentry)
  have hfinish : e.embedMissing records canonicals cached = e.finish records [texts]
      (missing canonicals cached) cached ((missing canonicals cached).zip (raw.map e.numpy.normalize)) := by
    unfold embedMissing
    simp only [hreply.embedFingerprints_eq hactive haccepts]
    rw [if_neg hkept]
  have hsourced := sourced_of_first hcanonicals hcached (hreply.asked haccepts)
  rw [hfinish, hsourced.finish_ok_iff hactive hrecords, List.forall_mem_append, hreply.forall_vectors_iff]
  · apply keys_of_entries hcanonicals hcached
    intro entry hentry
    obtain hold | hnew := List.mem_append.mp hentry
    · exact .inr (List.mem_map_of_mem hold)
    · exact .inl (List.of_mem_zip hnew).1
  · apply rectangular_of_width hreply.width_pos
    exact List.forall_mem_append.mpr ⟨hsame, hreply.lengths⟩

/-- The width has changed, and the vectors of the cache are asked for again. -/
theorem ok_iff_of_both {texts texts' : List String} {raw raw' : List (List F)}
    (hreply : Reply e canonicals 0 (missing canonicals cached) width texts raw)
    (hreply' : Reply e canonicals 1 (cached.map Prod.fst) width texts' raw')
    (haccepts : ∀ vector ∈ raw, e.numpy.Accepts vector)
    (hchanged : ∃ entry ∈ cached, entry.2.length ≠ width) :
    (∃ matrix, (e.embedMissing records canonicals cached).result = .ok matrix) ↔
      (∀ vector ∈ raw', e.numpy.Steady vector) ∧
        ∀ vector ∈ raw, e.numpy.Accepts (e.numpy.normalize vector) := by
  have hwidened : rewidened cached ((missing canonicals cached).zip (raw.map e.numpy.normalize)) = true :=
    (rewidened_iff hcached hreply.zip_ne_nil hreply.lengths).mpr hchanged
  by_cases haccepts' : ∀ vector ∈ raw', e.numpy.Accepts vector
  · have hfinish : e.embedMissing records canonicals cached = e.finish records [texts, texts']
        (missing canonicals cached ++ cached.map Prod.fst)
        ((cached.map Prod.fst).zip (raw'.map e.numpy.normalize))
        ((missing canonicals cached).zip (raw.map e.numpy.normalize)) := by
      unfold embedMissing
      simp only [hreply.embedFingerprints_eq hactive haccepts,
        hreply'.embedFingerprints_eq hactive haccepts']
      rw [if_pos hwidened]
      rfl
    have hsourced := sourced_of_both hcanonicals hcached (hreply.asked haccepts) (hreply'.asked haccepts')
    rw [hfinish, hsourced.finish_ok_iff hactive hrecords, List.forall_mem_append, hreply.forall_vectors_iff,
      hreply'.forall_vectors_iff]
    · apply and_congr_left
      intro _
      constructor
      · intro hagain vector hvector
        exact ⟨haccepts' vector hvector, hagain vector hvector⟩
      · intro hsteady vector hvector
        exact (hsteady vector hvector).again
    · apply keys_of_entries hcanonicals hcached
      intro entry hentry
      obtain hold | hnew := List.mem_append.mp hentry
      · exact .inr (List.of_mem_zip hold).1
      · exact .inl (List.of_mem_zip hnew).1
    · apply rectangular_of_width hreply.width_pos
      exact List.forall_mem_append.mpr ⟨hreply'.lengths, hreply.lengths⟩
  · constructor
    · rintro ⟨matrix, hok⟩
      refine absurd ?_ haccepts'
      unfold embedMissing at hok
      simp only [hreply.embedFingerprints_eq hactive haccepts] at hok
      rw [if_pos hwidened] at hok
      split at hok
      · cases hok
      · next recomputed hrecomputed => exact hreply'.accepts_of_ok hrecomputed
    · rintro ⟨hsteady, -⟩
      exact absurd (fun vector hvector => (hsteady vector hvector).accepts) haccepts'

/-- The run returns a matrix exactly if the vectors that it uses can be normalized again. -/
theorem embedMissing_ok_iff (hprovides : e.Provides width) :
    (∃ matrix, (e.embedMissing records canonicals cached).result = .ok matrix) ↔
      VectorsSteady e canonicals cached width := by
  by_cases hnone : missing canonicals cached = []
  · rw [ok_iff_of_cache hactive hrecords hcanonicals hcached hnone]
    have hkept : ¬WidthChanges canonicals cached width := fun hchanges => hchanges.1 hnone
    constructor
    · intro haccepts
      refine ⟨?_, fun _ => haccepts, fun hchanges => absurd hchanges hkept⟩
      rw [hnone]
      exact steadyAnswers_nil hprovides canonicals 0
    · intro hsteady
      exact hsteady.kept hkept
  · obtain ⟨texts, raw, hreply⟩ := exists_reply hprovides hcanonicals hnone
      (fun fingerprint hmem => (mem_missing_iff.mp hmem).1) 0
    by_cases haccepts : ∀ vector ∈ raw, e.numpy.Accepts vector
    · have hsteady_iff : SteadyAnswers e canonicals 0 (missing canonicals cached) ↔
          ∀ vector ∈ raw, e.numpy.Accepts (e.numpy.normalize vector) := by
        rw [hreply.steadyAnswers_iff]
        exact ⟨fun hsteady vector hvector => (hsteady vector hvector).again,
          fun hagain vector hvector => ⟨haccepts vector hvector, hagain vector hvector⟩⟩
      by_cases hchanged : ∃ entry ∈ cached, entry.2.length ≠ width
      · have hne : cached.map Prod.fst ≠ [] := by
          obtain ⟨entry, hentry, -⟩ := hchanged
          exact List.ne_nil_of_mem (List.mem_map_of_mem hentry)
        obtain ⟨texts', raw', hreply'⟩ := exists_reply hprovides hcanonicals hne (known_of_cached hcached) 1
        rw [ok_iff_of_both hactive hrecords hcanonicals hcached hreply hreply' haccepts hchanged,
          ← hsteady_iff, ← hreply'.steadyAnswers_iff]
        constructor
        · rintro ⟨hrecomputed, hmissing⟩
          exact ⟨hmissing, fun hkept => absurd ⟨hnone, hchanged⟩ hkept, fun _ => hrecomputed⟩
        · intro hsteady
          exact ⟨hsteady.recomputed ⟨hnone, hchanged⟩, hsteady.missing⟩
      · have hsame : ∀ entry ∈ cached, entry.2.length = width := by
          intro entry hentry
          by_contra hlength
          exact hchanged ⟨entry, hentry, hlength⟩
        rw [ok_iff_of_first hactive hrecords hcanonicals hcached hreply haccepts hsame, ← hsteady_iff]
        constructor
        · rintro ⟨hkept, hmissing⟩
          exact ⟨hmissing, fun _ => hkept, fun hchanges => absurd hchanges.2 hchanged⟩
        · intro hsteady
          exact ⟨hsteady.kept fun hchanges => hchanged hchanges.2, hsteady.missing⟩
    · constructor
      · rintro ⟨matrix, hok⟩
        refine absurd ?_ haccepts
        unfold embedMissing at hok
        dsimp only at hok
        split at hok
        · cases hok
        · next fresh hfresh => exact hreply.accepts_of_ok hfresh
      · intro hsteady
        refine absurd (fun vector hvector => ?_) haccepts
        exact (hreply.steadyAnswers_iff.mp hsteady.missing vector hvector).accepts

end Cases

end Embedder

end CoreMesh.LogMiner
