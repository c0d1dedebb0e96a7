import CoreMesh.Lib.Ending
import CoreMesh.LogMiner.Embeddings

/-!
# Reuse of embeddings

Whatever the cache holds and whatever the provider answers, a matrix that is returned has in every row the
vector of that record's prompt, and no prompt is asked for twice. That a matrix is returned takes more
than vectors that are finite and not zero: their norms have to be so as well.
-/

namespace CoreMesh.LogMiner

open Outcome Selection PyText

variable {F : Type}

/-! ### Normalization -/

namespace Numpy

variable (numpy : Numpy F)

/-- Finite numbers with a norm above zero. -/
structure Accepts (vector : List F) : Prop where
  finite : ∀ x ∈ vector, numpy.isFinite x = true
  positive : numpy.nonPositive (numpy.norm vector) = false

/-- Rows of one width above zero. -/
def Rectangular (vectors : List (List F)) : Prop :=
  ∃ width, 0 < width ∧ ∀ vector ∈ vectors, vector.length = width

variable {numpy}

theorem rectangular_iff {vectors : List (List F)} (hne : vectors ≠ []) : Rectangular vectors ↔
    (∀ vector ∈ vectors, ∀ other ∈ vectors, vector.length = other.length) ∧
      ∀ vector ∈ vectors, vector ≠ [] := by
  constructor
  · rintro ⟨width, hpos, hall⟩
    refine ⟨fun vector hvector other hother => (hall vector hvector).trans (hall other hother).symm, ?_⟩
    intro vector hvector hnil
    have hlength := hall vector hvector
    rw [hnil, List.length_nil] at hlength
    omega
  · rintro ⟨hsame, hall⟩
    obtain ⟨first, hfirst⟩ := List.exists_mem_of_ne_nil vectors hne
    exact ⟨first.length, List.length_pos_iff.mpr (hall first hfirst),
      fun vector hvector => hsame vector hvector first hfirst⟩

theorem validate_eq_ok_iff {vectors matrix : List (List F)} {count : ℕ} :
    numpy.validateAndNormalizeEmbeddings vectors (some count) = .ok matrix ↔
      vectors ≠ [] ∧ Rectangular vectors ∧ vectors.length = count ∧
        (∀ vector ∈ vectors, numpy.Accepts vector) ∧ matrix = vectors.map numpy.normalize := by
  have hragged : (vectors.any fun vector => vectors.any fun other => vector.length != other.length) = true ↔
      ¬∀ vector ∈ vectors, ∀ other ∈ vectors, vector.length = other.length := by simp
  have hempty : (vectors.isEmpty || vectors.any List.isEmpty) = true ↔
      ¬(vectors ≠ [] ∧ ∀ vector ∈ vectors, vector ≠ []) := by simp [imp_iff_not_or]
  have hcounted : ((some count).any fun count => vectors.length != count) = true ↔
      ¬vectors.length = count := by simp
  have hfinite : (!vectors.all fun vector => vector.all numpy.isFinite) = true ↔
      ¬∀ vector ∈ vectors, ∀ x ∈ vector, numpy.isFinite x = true := by simp
  have hnorm : (vectors.any fun vector => numpy.nonPositive (numpy.norm vector)) = true ↔
      ¬∀ vector ∈ vectors, numpy.nonPositive (numpy.norm vector) = false := by simp
  unfold validateAndNormalizeEmbeddings
  simp only [hragged, hempty, hcounted, hfinite, hnorm, ite_not]
  constructor
  · intro hok
    split at hok
    · next hsame =>
        split at hok
        · next hne =>
            split at hok
            · next hcount =>
                split at hok
                · next hall =>
                    split at hok
                    · next hpositive =>
                        exact ⟨hne.1, (rectangular_iff hne.1).mpr ⟨hsame, hne.2⟩, hcount,
                          fun vector hvector => ⟨hall vector hvector, hpositive vector hvector⟩,
                          (Except.ok.inj hok).symm⟩
                    · cases hok
                · cases hok
            · cases hok
        · cases hok
    · cases hok
  · rintro ⟨hne, hrectangular, hcount, haccepts, rfl⟩
    obtain ⟨hsame, hall⟩ := (rectangular_iff hne).mp hrectangular
    rw [if_pos hsame, if_pos ⟨hne, hall⟩, if_pos hcount,
      if_pos fun vector hvector => (haccepts vector hvector).finite,
      if_pos fun vector hvector => (haccepts vector hvector).positive]

@[simp] theorem length_normalize (vector : List F) : (numpy.normalize vector).length = vector.length :=
  List.length_map _

end Numpy

namespace Embedder

variable {e : Embedder F} {records : List InteractionRecord}

/-! ### Records -/

/-- Prompts that differ have different fingerprints. -/
def Collisionless (e : Embedder F) (records : List InteractionRecord) : Prop :=
  ∀ record ∈ records, ∀ other ∈ records, e.fingerprint record = e.fingerprint other →
    e.canonical record = e.canonical other

/-- The prompts of the records under their fingerprints, each of which is there once. -/
structure Canonicalizes (e : Embedder F) (records : List InteractionRecord)
    (canonicals : List (String × String)) : Prop where
  nodup : (canonicals.map Prod.fst).Nodup
  lookup : ∀ record ∈ records, canonicals.lookup (e.fingerprint record) = some (e.canonical record)
  source : ∀ entry ∈ canonicals, ∃ record ∈ records, entry = (e.fingerprint record, e.canonical record)

theorem Canonicalizes.known {canonicals : List (String × String)} {record : InteractionRecord}
    (hcanonicals : e.Canonicalizes records canonicals)
    (hlookup : canonicals.lookup (e.fingerprint record) = some (e.canonical record)) :
    e.Canonicalizes (records ++ [record]) canonicals where
  nodup := hcanonicals.nodup
  lookup := by
    intro other hother
    obtain hold | hnew := List.mem_append.mp hother
    · exact hcanonicals.lookup other hold
    · rwa [List.mem_singleton.mp hnew]
  source := by
    intro entry hentry
    obtain ⟨other, hother, heq⟩ := hcanonicals.source entry hentry
    exact ⟨other, List.mem_append_left _ hother, heq⟩

theorem Canonicalizes.added {canonicals : List (String × String)} {record : InteractionRecord}
    (hcanonicals : e.Canonicalizes records canonicals)
    (hfresh : canonicals.lookup (e.fingerprint record) = none) :
    e.Canonicalizes (records ++ [record]) (canonicals ++ [(e.fingerprint record, e.canonical record)]) where
  nodup := by
    rw [List.map_append, List.nodup_append']
    refine ⟨hcanonicals.nodup, List.nodup_singleton _, ?_⟩
    intro fingerprint hmem hsame
    obtain rfl := List.mem_singleton.mp hsame
    obtain ⟨entry, hentry, hkey⟩ := List.mem_map.mp hmem
    have hnone := List.lookup_eq_none_iff.mp hfresh entry hentry
    simp [hkey] at hnone
  lookup := by
    intro other hother
    rw [List.lookup_append]
    obtain hold | hnew := List.mem_append.mp hother
    · rw [hcanonicals.lookup other hold]
      rfl
    · rw [List.mem_singleton.mp hnew, hfresh]
      exact List.lookup_cons_self
  source := by
    intro entry hentry
    obtain hold | hnew := List.mem_append.mp hentry
    · obtain ⟨other, hother, heq⟩ := hcanonicals.source entry hold
      exact ⟨other, List.mem_append_left _ hother, heq⟩
    · exact ⟨record, List.mem_append_right _ (List.mem_singleton.mpr rfl), List.mem_singleton.mp hnew⟩

theorem canonicalizes_of_ok {canonicals : List (String × String)}
    (hok : e.canonicalByFingerprint records = .ok canonicals) : e.Canonicalizes records canonicals := by
  refine foldlM_eq_ok (fun done canonicals => e.Canonicalizes done canonicals) ?_ ?_ hok
  · exact ⟨List.nodup_nil, by simp, by simp⟩
  · intro done record rest canonicals canonicals' _ hdone hstep
    split at hstep
    · next hfresh =>
        obtain rfl := Except.ok.inj hstep
        exact hdone.added hfresh
    · next previous hprevious =>
        split at hstep
        · next hsame =>
            obtain rfl := Except.ok.inj hstep
            exact hdone.known (by rw [hprevious, hsame])
        · cases hstep

theorem exists_canonicals_iff :
    (∃ canonicals, e.canonicalByFingerprint records = .ok canonicals) ↔ e.Collisionless records := by
  constructor
  · rintro ⟨canonicals, hok⟩ record hrecord other hother hsame
    have hcanonicals := canonicalizes_of_ok hok
    have hfirst := hcanonicals.lookup record hrecord
    rw [hsame, hcanonicals.lookup other hother] at hfirst
    exact (Option.some.inj hfirst).symm
  · intro hdistinct
    apply exists_foldlM_eq_ok (fun done canonicals => e.Canonicalizes done canonicals)
    · exact ⟨List.nodup_nil, by simp, by simp⟩
    · intro done record rest canonicals hrecords hdone
      cases hlookup : canonicals.lookup (e.fingerprint record) with
      | none => exact ⟨_, rfl, hdone.added hlookup⟩
      | some previous =>
          -- The entry is from an earlier record with the same fingerprint.
          have hsame : previous = e.canonical record := by
            obtain ⟨before, after, rfl, -⟩ := List.lookup_eq_some_iff.mp hlookup
            have hmem := List.mem_append_right before (@List.mem_cons_self _ (e.fingerprint record, previous) after)
            obtain ⟨other, hother, heq⟩ := hdone.source _ hmem
            obtain ⟨hkey, rfl⟩ := Prod.mk.inj heq
            apply hdistinct other _ record _ hkey.symm
            · rw [hrecords]
              exact List.mem_append_left _ hother
            · rw [hrecords]
              exact List.mem_append_right _ List.mem_cons_self
          refine ⟨canonicals, ?_, hdone.known (by rw [hlookup, hsame])⟩
          simp only [hsame, if_true]

/-! ### The cache -/

theorem load_eq_ok {row : CacheRow F} {embedding : CachedEmbedding F}
    (hok : row.load = .ok embedding)
    (hstrip : strip row.profile.promptFingerprint.toList = row.profile.promptFingerprint.toList) :
    embedding.profile = row.profile ∧ embedding.embeddingDimensions = row.embeddingDimensions ∧
      row.embeddingValues = embedding.embeddingValues.map some ∧ embedding.embeddingValues ≠ [] := by
  unfold CacheRow.load at hok
  split at hok
  · cases hok
  · next values hvalues =>
      rw [hstrip, String.ofList_toList] at hok
      dsimp only at hok
      split at hok
      · next hvalid =>
          obtain rfl := Except.ok.inj hok
          refine ⟨rfl, rfl, ?_, List.length_pos_iff.mp hvalid.embeddingValues⟩
          have hall := mapM_eq_some_iff_forall₂.mp hvalues
          rw [← List.forall₂_eq_eq_eq, List.forall₂_map_right_iff]
          exact hall
      · cases hok

theorem selects_iff {fingerprints : List String} {row : CacheRow F} :
    e.selects fingerprints row = true ↔ ∃ fingerprint ∈ fingerprints, row.profile = e.profile fingerprint := by
  unfold selects
  rw [Bool.and_eq_true, List.contains_iff_mem, beq_iff_eq]
  constructor
  · rintro ⟨hmem, heq⟩
    exact ⟨_, hmem, heq⟩
  · rintro ⟨fingerprint, hmem, heq⟩
    have hkey : row.profile.promptFingerprint = fingerprint := by rw [heq]; rfl
    rw [hkey]
    exact ⟨hmem, heq⟩

theorem exists_rows_iff {fingerprints : List String} (hne : fingerprints ≠ []) :
    (∃ rows, e.loadCachedEmbeddings fingerprints = .ok rows) ↔
      ∀ row ∈ e.cache, ∀ fingerprint ∈ fingerprints, row.profile = e.profile fingerprint →
        ∃ embedding, row.load = .ok embedding := by
  unfold loadCachedEmbeddings
  rw [if_neg (by simpa using hne), exists_mapM_eq_ok_iff]
  constructor
  · intro hall row hrow fingerprint hfingerprint hprofile
    apply hall
    rw [mem_sortedBy, List.mem_filter, selects_iff]
    exact ⟨hrow, fingerprint, hfingerprint, hprofile⟩
  · intro hall row hrow
    rw [mem_sortedBy, List.mem_filter, selects_iff] at hrow
    obtain ⟨hmem, fingerprint, hfingerprint, hprofile⟩ := hrow
    exact hall row hmem fingerprint hfingerprint hprofile

/-- The values are those of the only row of the prompt, and they are used. -/
structure Reused (e : Embedder F) (fingerprint : String) (values : List F) : Prop where
  row : ∃ row, e.cache.filter (fun row => row.profile == e.profile fingerprint) = [row] ∧
    row.embeddingValues = values.map some ∧ row.embeddingDimensions = values.length
  nonempty : values ≠ []
  accepts : e.numpy.Accepts values

theorem filter_selects {fingerprints : List String} {fingerprint : String} (hmem : fingerprint ∈ fingerprints) :
    e.cache.filter (fun row => row.profile.promptFingerprint == fingerprint && e.selects fingerprints row) =
      e.cache.filter fun row => row.profile == e.profile fingerprint := by
  apply List.filter_congr
  intro row _
  rw [Bool.eq_iff_iff, Bool.and_eq_true, selects_iff, beq_iff_eq, beq_iff_eq]
  constructor
  · rintro ⟨hkey, other, -, hprofile⟩
    have hother : row.profile.promptFingerprint = other := by rw [hprofile]; rfl
    rw [hprofile, ← hother, hkey]
  · intro hprofile
    refine ⟨?_, fingerprint, hmem, hprofile⟩
    rw [hprofile]
    rfl

/-- A row of the table under the profile of a prompt, and what is loaded of it. -/
structure Loads (e : Embedder F) (fingerprint : String) (row : CacheRow F) (embedding : CachedEmbedding F) :
    Prop where
  profile : embedding.profile = e.profile fingerprint
  dimensions : row.embeddingDimensions = embedding.embeddingDimensions
  values : row.embeddingValues = embedding.embeddingValues.map some
  nonempty : embedding.embeddingValues ≠ []

/-- The rows under a fingerprint are those of the table under the profile of the prompt. -/
theorem rows_of_fingerprint {fingerprints : List String} {rows : List (CachedEmbedding F)}
    (hload : e.loadCachedEmbeddings fingerprints = .ok rows)
    (hstrip : ∀ fingerprint ∈ fingerprints, strip fingerprint.toList = fingerprint.toList)
    {fingerprint : String} (hmem : fingerprint ∈ fingerprints) :
    ∃ selected, selected.Perm (e.cache.filter fun row => row.profile == e.profile fingerprint) ∧
      List.Forall₂ (Loads e fingerprint) selected
        (rows.filter fun row => row.profile.promptFingerprint == fingerprint) := by
  unfold loadCachedEmbeddings at hload
  rw [if_neg (by simpa using List.ne_nil_of_mem hmem), mapM_eq_ok_iff_forall₂] at hload
  have hselected : ∀ row ∈ sortedBy (fun row => toLex (row.profile.promptFingerprint, row.embeddingDimensions))
      (e.cache.filter (e.selects fingerprints)), e.selects fingerprints row = true := by
    intro row hrow
    exact (List.mem_filter.mp (mem_sortedBy.mp hrow)).2
  have hall := (List.forall₂_and_left _ _).mpr ⟨hselected, hload⟩
  have hloads : ∀ row embedding, e.selects fingerprints row = true ∧ row.load = .ok embedding →
      embedding.profile = row.profile ∧ embedding.embeddingDimensions = row.embeddingDimensions ∧
        row.embeddingValues = embedding.embeddingValues.map some ∧ embedding.embeddingValues ≠ [] := by
    intro row embedding hrow
    obtain ⟨other, hother, hprofile⟩ := selects_iff.mp hrow.1
    apply load_eq_ok hrow.2
    rw [hprofile]
    exact hstrip other hother
  have hkeys : ∀ row embedding, e.selects fingerprints row = true ∧ row.load = .ok embedding →
      ((row.profile.promptFingerprint == fingerprint) = true ↔
        (embedding.profile.promptFingerprint == fingerprint) = true) := by
    intro row embedding hrow
    rw [(hloads row embedding hrow).1]
  have hperm := (sortedBy_perm (fun row : CacheRow F =>
    toLex (row.profile.promptFingerprint, row.embeddingDimensions))
    (e.cache.filter (e.selects fingerprints))).filter fun row => row.profile.promptFingerprint == fingerprint
  rw [List.filter_filter, filter_selects hmem] at hperm
  refine ⟨_, hperm, ?_⟩
  have hprofiles : ∀ row ∈ (sortedBy (fun row =>
      toLex (row.profile.promptFingerprint, row.embeddingDimensions))
      (e.cache.filter (e.selects fingerprints))).filter (fun row =>
        row.profile.promptFingerprint == fingerprint), row.profile = e.profile fingerprint := by
    intro row hrow
    exact beq_iff_eq.mp (List.mem_filter.mp (hperm.mem_iff.mp hrow)).2
  refine ((List.forall₂_and_left _ _).mpr ⟨hprofiles, List.rel_filter hkeys hall⟩).imp ?_
  rintro row embedding ⟨hprofile, hrow⟩
  obtain ⟨hsame, hdimensions, hvalues, hne⟩ := hloads row embedding hrow
  exact ⟨hsame.trans hprofile, hdimensions.symm, hvalues, hne⟩

/-- A vector is taken from the cache exactly if the row of its prompt can be reused. -/
theorem cachedVector_eq_some_iff {fingerprints : List String} {rows : List (CachedEmbedding F)}
    (hload : e.loadCachedEmbeddings fingerprints = .ok rows)
    (hstrip : ∀ fingerprint ∈ fingerprints, strip fingerprint.toList = fingerprint.toList)
    {fingerprint : String} (hmem : fingerprint ∈ fingerprints) {vector : List F} :
    e.cachedVector rows fingerprint = some vector ↔
      ∃ values, e.Reused fingerprint values ∧ vector = e.numpy.normalize values := by
  obtain ⟨selected, hperm, hall⟩ := rows_of_fingerprint hload hstrip hmem
  unfold cachedVector
  constructor
  · intro hvector
    split at hvector
    · next embedding hrows =>
        rw [hrows, List.forall₂_cons_right_iff] at hall
        obtain ⟨row, rest, hloads, hrest, rfl⟩ := hall
        rw [List.forall₂_nil_right_iff] at hrest
        rw [hrest, List.singleton_perm] at hperm
        split at hvector
        · cases hvector
        · next husable =>
            obtain ⟨-, hwidth⟩ := not_or.mp husable
            split at hvector
            · cases hvector
            · next normalized hnormalized =>
                obtain ⟨-, -, -, haccepts, rfl⟩ := Numpy.validate_eq_ok_iff.mp hnormalized
                have hwidth' : row.embeddingDimensions = embedding.embeddingValues.length := by
                  rw [hloads.dimensions]
                  exact (not_not.mp hwidth).symm
                exact ⟨embedding.embeddingValues, ⟨⟨row, hperm.symm, hloads.values, hwidth'⟩,
                  hloads.nonempty, haccepts _ (List.mem_singleton.mpr rfl)⟩, (Option.some.inj hvector).symm⟩
    · cases hvector
  · rintro ⟨values, ⟨⟨row, hrow, hvalues, hdimensions⟩, hne, haccepts⟩, rfl⟩
    rw [hrow, List.perm_singleton] at hperm
    rw [hperm, List.forall₂_cons_left_iff] at hall
    obtain ⟨embedding, rest, hloads, hrest, hrows⟩ := hall
    rw [List.forall₂_nil_left_iff] at hrest
    rw [hrest] at hrows
    have hsame : embedding.embeddingValues = values := by
      apply List.map_injective_iff.mpr (Option.some_injective F)
      rw [← hloads.values, hvalues]
    have hvalidate : e.numpy.validateAndNormalizeEmbeddings [values] (some 1) =
        .ok [e.numpy.normalize values] := by
      apply Numpy.validate_eq_ok_iff.mpr
      exact ⟨List.cons_ne_nil _ _, ⟨values.length, List.length_pos_iff.mpr hne, by simp⟩, rfl,
        by simpa using haccepts, rfl⟩
    have husable : ¬(embedding.profile ≠ e.profile fingerprint ∨
        values.length ≠ embedding.embeddingDimensions) := by
      rw [← hloads.dimensions, hdimensions]
      simp [hloads.profile]
    simp only [hrows, hsame, if_neg husable, hvalidate, List.head?_cons]

/-- Entries with keys of their own, whose vectors have one width above zero. -/
structure Vectors (entries : List (String × List F)) : Prop where
  nodup : (entries.map Prod.fst).Nodup
  rectangular : Numpy.Rectangular (entries.map Prod.snd)

theorem mem_cachedVectors {fingerprints : List String} {rows : List (CachedEmbedding F)}
    {entry : String × List F} (hmem : entry ∈ e.cachedVectors rows fingerprints) :
    entry.1 ∈ fingerprints ∧ e.cachedVector rows entry.1 = some entry.2 := by
  unfold cachedVectors at hmem
  dsimp only at hmem
  split at hmem
  · cases hmem
  · obtain ⟨fingerprint, hfingerprint, hentry⟩ := List.mem_filterMap.mp hmem
    obtain ⟨vector, hvector, rfl⟩ := Option.map_eq_some_iff.mp hentry
    exact ⟨hfingerprint, hvector⟩

theorem map_fst_filterMap_sublist {α β : Type} (f : α → Option β) (l : List α) :
    ((l.filterMap fun a => (f a).map fun b => (a, b)).map Prod.fst).Sublist l := by
  induction l with
  | nil => exact .slnil
  | cons a l ih =>
      cases hf : f a with
      | none =>
          rw [List.filterMap_cons_none (by rw [hf]; rfl)]
          exact ih.cons a
      | some b =>
          rw [List.filterMap_cons_some (by rw [hf]; rfl)]
          exact ih.cons_cons a

theorem sublist_cachedVectors (rows : List (CachedEmbedding F)) (fingerprints : List String) :
    ((e.cachedVectors rows fingerprints).map Prod.fst).Sublist fingerprints := by
  unfold cachedVectors
  dsimp only
  split
  · exact List.nil_sublist _
  · exact map_fst_filterMap_sublist _ _

theorem one_width_cachedVectors {fingerprints : List String} {rows : List (CachedEmbedding F)} :
    ∀ entry ∈ e.cachedVectors rows fingerprints, ∀ other ∈ e.cachedVectors rows fingerprints,
      entry.2.length = other.2.length := by
  unfold cachedVectors
  dsimp only
  split
  · simp
  · next hone =>
      intro entry hentry other hother
      apply Finset.card_le_one.mp (not_lt.mp hone)
      · exact List.mem_toFinset.mpr (List.mem_map.mpr ⟨entry, hentry, rfl⟩)
      · exact List.mem_toFinset.mpr (List.mem_map.mpr ⟨other, hother, rfl⟩)

theorem vectors_cachedVectors {fingerprints : List String} {rows : List (CachedEmbedding F)}
    (hnodup : fingerprints.Nodup) (hload : e.loadCachedEmbeddings fingerprints = .ok rows)
    (hstrip : ∀ fingerprint ∈ fingerprints, strip fingerprint.toList = fingerprint.toList) :
    Vectors (e.cachedVectors rows fingerprints) where
  nodup := hnodup.sublist (sublist_cachedVectors rows fingerprints)
  rectangular := by
    cases hcached : e.cachedVectors rows fingerprints with
    | nil => exact ⟨1, Nat.one_pos, by simp⟩
    | cons first rest =>
        have hfirst : first ∈ e.cachedVectors rows fingerprints := by
          rw [hcached]
          exact List.mem_cons_self
        refine ⟨first.2.length, ?_, ?_⟩
        · obtain ⟨hmem, hvector⟩ := mem_cachedVectors hfirst
          obtain ⟨values, hreused, heq⟩ := (cachedVector_eq_some_iff hload hstrip hmem).mp hvector
          rw [heq, Numpy.length_normalize]
          exact List.length_pos_iff.mpr hreused.nonempty
        · rw [← hcached, List.forall_mem_map]
          intro entry hentry
          exact one_width_cachedVectors entry hentry first hfirst

/-! ### The provider -/

/-- The provider's vector for a prompt, in one of the calls. -/
def Answers (e : Embedder F) (calls : List (List String)) (prompt : String) (vector : List F) : Prop :=
  ∃ (call : ℕ) (texts : List String) (vectors : List (List F)) (i : ℕ), calls[call]? = some texts ∧
    e.embed call texts = some vectors ∧ texts[i]? = some prompt ∧ vectors[i]? = some vector

/-- What comes of asking for some prompts, in a call of which the answer is used. -/
structure Asked (e : Embedder F) (canonicals : List (String × String)) (call : ℕ) (fingerprints : List String)
    (texts : List String) (raw : List (List F)) : Prop where
  nonempty : fingerprints ≠ []
  lookups : List.Forall₂ (fun fingerprint text => canonicals.lookup fingerprint = some text) fingerprints texts
  answer : e.embed call texts = some raw
  length : raw.length = fingerprints.length
  rectangular : Numpy.Rectangular raw
  accepts : ∀ vector ∈ raw, e.numpy.Accepts vector

theorem embedFingerprints_nil (canonicals : List (String × String)) (call : ℕ) :
    e.embedFingerprints canonicals call [] = { vectors := .ok [] } := by
  rfl

theorem embedFingerprints_ok {canonicals : List (String × String)} {call : ℕ} {fingerprints : List String}
    {vectors : List (String × List F)} (hne : fingerprints ≠ [])
    (hok : (e.embedFingerprints canonicals call fingerprints).vectors = .ok vectors) :
    ∃ texts raw, Asked e canonicals call fingerprints texts raw ∧
      (e.embedFingerprints canonicals call fingerprints).calls = [texts] ∧
      vectors = fingerprints.zip (raw.map e.numpy.normalize) := by
  have hsome : fingerprints.isEmpty = false := by simpa using hne
  unfold embedFingerprints at hok ⊢
  rw [hsome] at hok ⊢
  simp only [Bool.false_eq_true, if_false] at hok ⊢
  split at hok
  · cases hok
  · next hasking =>
      rw [if_neg hasking]
      split at hok
      · cases hok
      · next texts htexts =>
          split at hok
          · cases hok
          · next raw hraw =>
              split at hok
              · cases hok
              · next hanswered =>
                  rw [if_neg hanswered]
                  cases hvalidate : e.numpy.validateAndNormalizeEmbeddings raw (some fingerprints.length) with
                  | error error =>
                      rw [hvalidate] at hok
                      cases hok
                  | ok matrix =>
                      rw [hvalidate] at hok
                      obtain ⟨-, hrectangular, hlength, haccepts, rfl⟩ := Numpy.validate_eq_ok_iff.mp hvalidate
                      refine ⟨texts, raw, ⟨hne, mapM_eq_some_iff_forall₂.mp htexts, hraw, hlength, hrectangular,
                        haccepts⟩, rfl, ?_⟩
                      exact (Except.ok.inj hok).symm

/-- A call or none, whatever comes of it. -/
theorem calls_embedFingerprints (canonicals : List (String × String)) (call : ℕ) (fingerprints : List String) :
    (e.embedFingerprints canonicals call fingerprints).calls = [] ∨
      ∃ texts, List.Forall₂ (fun fingerprint text => canonicals.lookup fingerprint = some text)
        fingerprints texts ∧ (e.embedFingerprints canonicals call fingerprints).calls = [texts] := by
  unfold embedFingerprints
  split
  · exact .inl rfl
  · split
    · exact .inl rfl
    · split
      · exact .inl rfl
      · next texts htexts =>
          refine .inr ⟨texts, mapM_eq_some_iff_forall₂.mp htexts, ?_⟩
          split
          · rfl
          · split <;> rfl

section Asked

variable {canonicals : List (String × String)} {call : ℕ} {fingerprints texts : List String}
  {raw : List (List F)}

/-- A fingerprint is that of its prompt. -/
theorem Canonicalizes.fingerprint_eq (hcanonicals : e.Canonicalizes records canonicals)
    {fingerprint text : String} (hlookup : canonicals.lookup fingerprint = some text) :
    ∃ record ∈ records, fingerprint = e.fingerprint record ∧ text = e.canonical record := by
  obtain ⟨before, after, heq, -⟩ := List.lookup_eq_some_iff.mp hlookup
  obtain ⟨record, hrecord, hentry⟩ := hcanonicals.source (fingerprint, text) (by rw [heq]; simp)
  exact ⟨record, hrecord, Prod.mk.inj hentry⟩

theorem Canonicalizes.fingerprints_of_texts (hcanonicals : e.Canonicalizes records canonicals)
    (hlookups : List.Forall₂ (fun fingerprint text => canonicals.lookup fingerprint = some text)
      fingerprints texts) : texts.map e.buildPromptFingerprint = fingerprints ∧
        ∀ text ∈ texts, ∃ record ∈ records, text = e.canonical record := by
  induction hlookups with
  | nil => simp
  | cons hlookup _ ih =>
      obtain ⟨record, hrecord, hfingerprint, htext⟩ := hcanonicals.fingerprint_eq hlookup
      refine ⟨?_, List.forall_mem_cons.mpr ⟨⟨record, hrecord, htext⟩, ih.2⟩⟩
      rw [List.map_cons, ih.1, htext, hfingerprint]
      rfl

theorem Canonicalizes.canonical_eq (hcanonicals : e.Canonicalizes records canonicals)
    {record other : InteractionRecord} (hrecord : record ∈ records) (hother : other ∈ records)
    (hsame : e.fingerprint record = e.fingerprint other) : e.canonical record = e.canonical other := by
  have hlookup := hcanonicals.lookup record hrecord
  rw [hsame, hcanonicals.lookup other hother] at hlookup
  exact (Option.some.inj hlookup).symm

theorem Canonicalizes.mem_texts_iff (hcanonicals : e.Canonicalizes records canonicals)
    (hlookups : List.Forall₂ (fun fingerprint text => canonicals.lookup fingerprint = some text)
      fingerprints texts) {record : InteractionRecord} (hrecord : record ∈ records) :
    e.canonical record ∈ texts ↔ e.fingerprint record ∈ fingerprints := by
  obtain ⟨hfingerprints, hsource⟩ := hcanonicals.fingerprints_of_texts hlookups
  rw [← hfingerprints]
  constructor
  · intro hmem
    exact List.mem_map_of_mem hmem
  · intro hmem
    obtain ⟨text, htext, hsame⟩ := List.mem_map.mp hmem
    obtain ⟨other, hother, rfl⟩ := hsource text htext
    rwa [hcanonicals.canonical_eq hrecord hother hsame.symm]

/-- A vector that was asked for is the answer to the prompt of a record. -/
theorem mem_asked_iff (hcanonicals : e.Canonicalizes records canonicals)
    (hasked : Asked e canonicals call fingerprints texts raw) {entry : String × List F} :
    entry ∈ fingerprints.zip (raw.map e.numpy.normalize) ↔
      ∃ record ∈ records, ∃ vector, (∃ i : ℕ, texts[i]? = some (e.canonical record) ∧ raw[i]? = some vector) ∧
        entry = (e.fingerprint record, e.numpy.normalize vector) := by
  obtain ⟨hfingerprints, hsource⟩ := hcanonicals.fingerprints_of_texts hasked.lookups
  rw [List.mem_iff_getElem?]
  simp only [List.getElem?_zip_eq_some, ← hfingerprints, List.getElem?_map, Option.map_eq_some_iff]
  constructor
  · rintro ⟨i, ⟨text, htext, hfingerprint⟩, vector, hvector, hnormalized⟩
    obtain ⟨record, hrecord, rfl⟩ := hsource text (List.mem_of_getElem? htext)
    exact ⟨record, hrecord, vector, ⟨i, htext, hvector⟩, Prod.ext hfingerprint.symm hnormalized.symm⟩
  · rintro ⟨record, -, vector, ⟨i, htext, hvector⟩, rfl⟩
    exact ⟨i, ⟨_, htext, rfl⟩, vector, hvector, rfl⟩

theorem Asked.map_fst (hasked : Asked e canonicals call fingerprints texts raw) :
    (fingerprints.zip (raw.map e.numpy.normalize)).map Prod.fst = fingerprints := by
  rw [List.map_fst_zip]
  rw [List.length_map, hasked.length]

end Asked

/-! ### What the vectors come from -/

/-- The vectors of all prompts: those of the provider under the fingerprints it was asked for, and those of
the cache under the others. -/
structure Sourced (e : Embedder F) (records : List InteractionRecord) (calls : List (List String))
    (embedded : List String) (vectors : List (String × List F)) : Prop where
  nodup : (vectors.map Prod.fst).Nodup
  covers : ∀ record ∈ records, e.fingerprint record ∈ vectors.map Prod.fst
  embedded_nodup : embedded.Nodup
  embedded_subset : ∀ fingerprint ∈ embedded, fingerprint ∈ vectors.map Prod.fst
  provider : ∀ entry, (entry ∈ vectors ∧ entry.1 ∈ embedded) ↔
    ∃ record ∈ records, ∃ vector, Answers e calls (e.canonical record) vector ∧
      entry = (e.fingerprint record, e.numpy.normalize vector)
  cache : ∀ entry ∈ vectors, entry.1 ∉ embedded →
    ∃ values, Reused e entry.1 values ∧ entry.2 = e.numpy.normalize values
  asked_iff : ∀ record ∈ records, e.canonical record ∈ calls.flatten ↔ e.fingerprint record ∈ embedded

/-- In every row the vector of its record's prompt, all of one width, and in the cache what the provider was
asked for. -/
structure Faithful (e : Embedder F) (records : List InteractionRecord) (run : EmbeddingRun F)
    (matrix : List (List F)) : Prop where
  result : run.result = .ok matrix
  length : matrix.length = records.length
  width : ∃ width, ∀ row ∈ matrix, row.length = width
  rows : ∀ (i : ℕ) record row, records[i]? = some record → matrix[i]? = some row →
    ∃ values, row = e.numpy.normalize (e.numpy.normalize values) ∧
      (Answers e run.calls (e.canonical record) values ∨
        Reused e (e.fingerprint record) values ∧ e.canonical record ∉ run.calls.flatten)
  stored : ∀ entry, entry ∈ run.stored ↔ ∃ record ∈ records, ∃ vector,
    Answers e run.calls (e.canonical record) vector ∧
      entry = (e.fingerprint record, e.numpy.normalize vector)
  stored_nodup : (run.stored.map Prod.fst).Nodup

section Finish

variable {calls : List (List String)} {embedded : List String} {cached fresh : List (String × List F)}

theorem insertAll_eq_append (hnodup : ((cached ++ fresh).map Prod.fst).Nodup) :
    OrderedDict.insertAll Prod.fst cached fresh = cached ++ fresh := by
  have hcached : (cached.map Prod.fst).Nodup := by
    rw [List.map_append] at hnodup
    exact hnodup.of_append_left
  have hall : OrderedDict.insertAll Prod.fst [] (cached ++ fresh) =
      OrderedDict.insertAll Prod.fst (OrderedDict.insertAll Prod.fst [] cached) fresh :=
    OrderedDict.insertAll_append [] cached fresh
  rw [OrderedDict.insertAll_of_distinct hnodup, OrderedDict.insertAll_of_distinct hcached] at hall
  exact hall.symm

theorem vectorOf_iff {vectors : List (String × List F)} (hnodup : (vectors.map Prod.fst).Nodup)
    {fingerprint : String} {vector : List F} :
    (OrderedDict.get? Prod.fst vectors fingerprint).map Prod.snd = some vector ↔
      (fingerprint, vector) ∈ vectors := by
  have hdistinct : OrderedDict.Distinct Prod.fst vectors := hnodup
  rw [Option.map_eq_some_iff]
  constructor
  · rintro ⟨entry, hget, rfl⟩
    obtain ⟨rfl, hmem⟩ := OrderedDict.key_of_get? hget
    exact hmem
  · intro hmem
    exact ⟨_, hdistinct.mem_iff.mp hmem, rfl⟩

/-- The last lines find a vector under every key. -/
theorem Sourced.finish_eq (hsourced : Sourced e records calls embedded (cached ++ fresh)) :
    ∃ rows toStore,
      List.Forall₂ (fun record row => (e.fingerprint record, row) ∈ cached ++ fresh) records rows ∧
      List.Forall₂ (fun fingerprint entry => entry ∈ cached ++ fresh ∧ entry.1 = fingerprint)
        embedded toStore ∧
      e.finish records calls embedded cached fresh =
        if !toStore.isEmpty && !(e.active .storing && e.active .stored) then
          { result := .error .runClaimLost, calls := calls }
        else
          { result := e.numpy.validateAndNormalizeEmbeddings rows (some records.length)
            calls := calls
            stored := toStore
            embeddedCount := embedded.length } := by
  have hfound {fingerprint : String} (hmem : fingerprint ∈ (cached ++ fresh).map Prod.fst) :
      ∃ vector, (OrderedDict.get? Prod.fst (cached ++ fresh) fingerprint).map Prod.snd = some vector := by
    obtain ⟨entry, hentry, rfl⟩ := List.mem_map.mp hmem
    exact ⟨entry.2, (vectorOf_iff hsourced.nodup).mpr hentry⟩
  obtain ⟨rows, hrows⟩ : ∃ rows, records.mapM (fun record =>
      (OrderedDict.get? Prod.fst (cached ++ fresh) (e.fingerprint record)).map Prod.snd) = some rows :=
    ⟨_, mapM_eq_some_iff.mpr ⟨fun record hrecord => hfound (hsourced.covers record hrecord), rfl⟩⟩
  obtain ⟨toStore, hstore⟩ : ∃ toStore, embedded.mapM (fun fingerprint =>
      ((OrderedDict.get? Prod.fst (cached ++ fresh) fingerprint).map Prod.snd).map fun vector =>
        (fingerprint, vector)) = some toStore := by
    refine ⟨_, mapM_eq_some_iff.mpr ⟨fun fingerprint hmem => ?_, rfl⟩⟩
    obtain ⟨vector, hvector⟩ := hfound (hsourced.embedded_subset fingerprint hmem)
    exact ⟨_, by rw [hvector]; rfl⟩
  refine ⟨rows, toStore, (mapM_eq_some_iff_forall₂.mp hrows).imp ?_,
    (mapM_eq_some_iff_forall₂.mp hstore).imp ?_, ?_⟩
  · intro record row hrow
    exact (vectorOf_iff hsourced.nodup).mp hrow
  · intro fingerprint entry hentry
    obtain ⟨vector, hvector, rfl⟩ := Option.map_eq_some_iff.mp hentry
    exact ⟨(vectorOf_iff hsourced.nodup).mp hvector, rfl⟩
  · unfold finish
    dsimp only
    rw [insertAll_eq_append hsourced.nodup, hstore, hrows]

theorem rel_of_getElem? {α β : Type} {R : α → β → Prop} {l : List α} {l' : List β}
    (hall : List.Forall₂ R l l') {i : ℕ} {a : α} {b : β} (ha : l[i]? = some a) (hb : l'[i]? = some b) :
    R a b := by
  apply List.forall₂_zip hall
  rw [List.mem_iff_getElem?]
  exact ⟨i, List.getElem?_zip_eq_some.mpr ⟨ha, hb⟩⟩

theorem exists_of_mem_right {α β : Type} {R : α → β → Prop} {l : List α} {l' : List β}
    (hall : List.Forall₂ R l l') {b : β} (hb : b ∈ l') : ∃ a ∈ l, R a b := by
  induction hall with
  | nil => cases hb
  | cons hrel _ ih =>
      obtain rfl | hb := List.mem_cons.mp hb
      · exact ⟨_, List.mem_cons_self, hrel⟩
      · obtain ⟨a, ha, hrel⟩ := ih hb
        exact ⟨a, List.mem_cons_of_mem _ ha, hrel⟩

theorem exists_of_mem_left {α β : Type} {R : α → β → Prop} {l : List α} {l' : List β}
    (hall : List.Forall₂ R l l') {a : α} (ha : a ∈ l) : ∃ b ∈ l', R a b :=
  exists_of_mem_right hall.flip ha

theorem Sourced.of_same_key {vectors : List (String × List F)}
    (hsourced : Sourced e records calls embedded vectors) {first second : String × List F}
    (hfirst : first ∈ vectors) (hsecond : second ∈ vectors) (hkey : first.1 = second.1) : first = second :=
  List.inj_on_of_nodup_map hsourced.nodup hfirst hsecond hkey

/-- What is stored is under the keys that the provider was asked for. -/
theorem Sourced.mem_store_iff {vectors toStore : List (String × List F)}
    (hsourced : Sourced e records calls embedded vectors)
    (hstore : List.Forall₂ (fun fingerprint entry => entry ∈ vectors ∧ entry.1 = fingerprint)
      embedded toStore) :
    toStore.map Prod.fst = embedded ∧
      ∀ entry, entry ∈ toStore ↔ entry ∈ vectors ∧ entry.1 ∈ embedded := by
  have hkeys : toStore.map Prod.fst = embedded := by
    clear hsourced
    induction hstore with
    | nil => rfl
    | cons hentry _ ih => rw [List.map_cons, ih, hentry.2]
  have hmem : ∀ entry ∈ toStore, entry ∈ vectors := by
    clear hsourced hkeys
    induction hstore with
    | nil => simp
    | cons hentry _ ih => exact List.forall_mem_cons.mpr ⟨hentry.1, ih⟩
  refine ⟨hkeys, fun entry => ⟨fun hentry => ?_, fun hentry => ?_⟩⟩
  · refine ⟨hmem entry hentry, ?_⟩
    rw [← hkeys]
    exact List.mem_map_of_mem hentry
  · obtain ⟨hvector, hkey⟩ := hentry
    rw [← hkeys] at hkey
    obtain ⟨other, hother, hsame⟩ := List.mem_map.mp hkey
    rwa [← hsourced.of_same_key (hmem other hother) hvector hsame]

theorem Sourced.faithful (hcanonicals : ∀ record ∈ records, ∀ other ∈ records,
      e.fingerprint record = e.fingerprint other → e.canonical record = e.canonical other)
    (hsourced : Sourced e records calls embedded (cached ++ fresh))
    {matrix : List (List F)} (hok : (e.finish records calls embedded cached fresh).result = .ok matrix) :
    Faithful e records (e.finish records calls embedded cached fresh) matrix := by
  obtain ⟨rows, toStore, hrows, hstore, hfinish⟩ := hsourced.finish_eq
  rw [hfinish] at hok ⊢
  split at hok
  · cases hok
  · next hactive =>
      rw [if_neg hactive]
      obtain ⟨-, ⟨width, -, hwidth⟩, hlength, -, rfl⟩ := Numpy.validate_eq_ok_iff.mp hok
      obtain ⟨hkeys, hstored⟩ := hsourced.mem_store_iff hstore
      refine ⟨hok, ?_, ⟨width, ?_⟩, ?_, ?_, ?_⟩
      · rw [List.length_map, hlength]
      · rw [List.forall_mem_map]
        intro row hrow
        rw [Numpy.length_normalize, hwidth row hrow]
      · intro i record row hrecord hrow
        rw [List.getElem?_map, Option.map_eq_some_iff] at hrow
        obtain ⟨vector, hvector, rfl⟩ := hrow
        have hentry := rel_of_getElem? hrows hrecord hvector
        have hmem : record ∈ records := List.mem_of_getElem? hrecord
        by_cases hembedded : e.fingerprint record ∈ embedded
        · obtain ⟨other, hother, values, hanswers, heq⟩ := (hsourced.provider _).mp ⟨hentry, hembedded⟩
          obtain ⟨hsame, hvalues⟩ := Prod.mk.inj heq
          refine ⟨values, by rw [hvalues], .inl ?_⟩
          rwa [hcanonicals record hmem other hother hsame]
        · obtain ⟨values, hreused, hvalues⟩ := hsourced.cache _ hentry hembedded
          refine ⟨values, by rw [← hvalues], .inr ⟨hreused, ?_⟩⟩
          rwa [hsourced.asked_iff record hmem]
      · intro entry
        rw [← hsourced.provider]
        exact hstored entry
      · rw [hkeys]
        exact hsourced.embedded_nodup

end Finish

/-! ### The vectors of the cache and the others -/

/-- Vectors that can be used of the cache, under fingerprints of the records. -/
structure FromCache (e : Embedder F) (canonicals : List (String × String)) (cached : List (String × List F)) :
    Prop where
  nodup : (cached.map Prod.fst).Nodup
  rectangular : Numpy.Rectangular (cached.map Prod.snd)
  known : ∀ entry ∈ cached, entry.1 ∈ canonicals.map Prod.fst
  reused : ∀ entry ∈ cached, ∃ values, Reused e entry.1 values ∧ entry.2 = e.numpy.normalize values

section Missing

variable {canonicals : List (String × String)} {cached : List (String × List F)}

theorem mem_missing_iff {fingerprint : String} : fingerprint ∈ missing canonicals cached ↔
    fingerprint ∈ canonicals.map Prod.fst ∧ fingerprint ∉ cached.map Prod.fst := by
  unfold missing
  rw [List.mem_filter, Option.isNone_iff_eq_none, List.lookup_eq_none_iff]
  apply and_congr_right
  intro _
  rw [List.mem_map]
  constructor
  · rintro hall ⟨entry, hentry, rfl⟩
    simpa using hall entry hentry
  · intro hnone entry hentry
    rw [bne_iff_ne]
    exact fun hsame => hnone ⟨entry, hentry, hsame.symm⟩

theorem nodup_missing_append (hcanonicals : e.Canonicalizes records canonicals)
    (hcached : FromCache e canonicals cached) :
    (missing canonicals cached ++ cached.map Prod.fst).Nodup := by
  refine List.Nodup.append (hcanonicals.nodup.filter _) hcached.nodup ?_
  intro fingerprint hmissing hmem
  exact (mem_missing_iff.mp hmissing).2 hmem

/-- Each prompt is in the cache or missing. -/
theorem Canonicalizes.cached_or_missing (hcanonicals : e.Canonicalizes records canonicals)
    (cached : List (String × List F)) {record : InteractionRecord} (hrecord : record ∈ records) :
    e.fingerprint record ∈ cached.map Prod.fst ∨ e.fingerprint record ∈ missing canonicals cached := by
  by_cases hmem : e.fingerprint record ∈ cached.map Prod.fst
  · exact .inl hmem
  · obtain ⟨before, after, heq, -⟩ := List.lookup_eq_some_iff.mp (hcanonicals.lookup record hrecord)
    refine .inr (mem_missing_iff.mpr ⟨?_, hmem⟩)
    rw [heq]
    simp

theorem answers_singleton_iff {texts : List String} {raw : List (List F)} (hraw : e.embed 0 texts = some raw)
    {prompt : String} {vector : List F} : Answers e [texts] prompt vector ↔
      ∃ i : ℕ, texts[i]? = some prompt ∧ raw[i]? = some vector := by
  constructor
  · rintro ⟨call, asked, vectors, i, hcall, hanswer, htext, hvector⟩
    cases call with
    | zero =>
        obtain rfl := Option.some.inj hcall
        rw [hraw] at hanswer
        obtain rfl := Option.some.inj hanswer
        exact ⟨i, htext, hvector⟩
    | succ call => cases hcall
  · rintro ⟨i, htext, hvector⟩
    exact ⟨0, texts, raw, i, rfl, hraw, htext, hvector⟩

theorem answers_pair_iff {texts texts' : List String} {raw raw' : List (List F)}
    (hraw : e.embed 0 texts = some raw) (hraw' : e.embed 1 texts' = some raw') {prompt : String}
    {vector : List F} : Answers e [texts, texts'] prompt vector ↔
      (∃ i : ℕ, texts[i]? = some prompt ∧ raw[i]? = some vector) ∨
        ∃ i : ℕ, texts'[i]? = some prompt ∧ raw'[i]? = some vector := by
  constructor
  · rintro ⟨call, asked, vectors, i, hcall, hanswer, htext, hvector⟩
    match call with
    | 0 =>
        obtain rfl := Option.some.inj hcall
        rw [hraw] at hanswer
        obtain rfl := Option.some.inj hanswer
        exact .inl ⟨i, htext, hvector⟩
    | 1 =>
        obtain rfl := Option.some.inj hcall
        rw [hraw'] at hanswer
        obtain rfl := Option.some.inj hanswer
        exact .inr ⟨i, htext, hvector⟩
    | call + 2 => cases hcall
  · rintro (⟨i, htext, hvector⟩ | ⟨i, htext, hvector⟩)
    · exact ⟨0, texts, raw, i, rfl, hraw, htext, hvector⟩
    · exact ⟨1, texts', raw', i, rfl, hraw', htext, hvector⟩

/-- All prompts are in the cache. -/
theorem sourced_of_cache (hcanonicals : e.Canonicalizes records canonicals)
    (hcached : FromCache e canonicals cached) (hnone : missing canonicals cached = []) :
    Sourced e records [] [] (cached ++ []) := by
  rw [List.append_nil]
  refine ⟨hcached.nodup, ?_, List.nodup_nil, by simp, ?_, fun entry hentry _ => hcached.reused entry hentry,
    by simp⟩
  · intro record hrecord
    obtain hmem | hmem := hcanonicals.cached_or_missing cached hrecord
    · exact hmem
    · rw [hnone] at hmem
      cases hmem
  · intro entry
    constructor
    · intro hentry
      cases hentry.2
    · rintro ⟨record, -, vector, ⟨call, texts, vectors, i, hcall, -⟩, -⟩
      cases hcall

/-- The cache has some of the prompts, and the provider is asked for the others. -/
theorem sourced_of_first (hcanonicals : e.Canonicalizes records canonicals)
    (hcached : FromCache e canonicals cached) {texts : List String} {raw : List (List F)}
    (hasked : Asked e canonicals 0 (missing canonicals cached) texts raw) :
    Sourced e records [texts] (missing canonicals cached)
      (cached ++ (missing canonicals cached).zip (raw.map e.numpy.normalize)) := by
  have hkeys : (cached ++ (missing canonicals cached).zip (raw.map e.numpy.normalize)).map Prod.fst =
      cached.map Prod.fst ++ missing canonicals cached := by
    rw [List.map_append, hasked.map_fst]
  have hnodup := nodup_missing_append hcanonicals hcached
  refine ⟨?_, ?_, hnodup.of_append_left, ?_, ?_, ?_, ?_⟩
  · rw [hkeys]
    exact List.nodup_append_comm.mp hnodup
  · intro record hrecord
    rw [hkeys, List.mem_append]
    exact hcanonicals.cached_or_missing cached hrecord
  · intro fingerprint hmem
    rw [hkeys]
    exact List.mem_append_right _ hmem
  · intro entry
    simp only [answers_singleton_iff hasked.answer]
    rw [← mem_asked_iff hcanonicals hasked, List.mem_append]
    constructor
    · rintro ⟨hentry | hentry, hmem⟩
      · exact absurd (List.mem_map_of_mem hentry) (mem_missing_iff.mp hmem).2
      · exact hentry
    · intro hentry
      refine ⟨.inr hentry, ?_⟩
      rw [← hasked.map_fst]
      exact List.mem_map_of_mem hentry
  · intro entry hentry hnot
    obtain hold | hnew := List.mem_append.mp hentry
    · exact hcached.reused entry hold
    · refine absurd ?_ hnot
      rw [← hasked.map_fst]
      exact List.mem_map_of_mem hnew
  · intro record hrecord
    rw [List.flatten_singleton]
    exact hcanonicals.mem_texts_iff hasked.lookups hrecord

/-- The width has changed, and the provider is asked for all prompts, in two calls. -/
theorem sourced_of_both (hcanonicals : e.Canonicalizes records canonicals)
    (hcached : FromCache e canonicals cached) {texts texts' : List String} {raw raw' : List (List F)}
    (hasked : Asked e canonicals 0 (missing canonicals cached) texts raw)
    (hasked' : Asked e canonicals 1 (cached.map Prod.fst) texts' raw') :
    Sourced e records [texts, texts'] (missing canonicals cached ++ cached.map Prod.fst)
      ((cached.map Prod.fst).zip (raw'.map e.numpy.normalize) ++
        (missing canonicals cached).zip (raw.map e.numpy.normalize)) := by
  have hkeys : ((cached.map Prod.fst).zip (raw'.map e.numpy.normalize) ++
      (missing canonicals cached).zip (raw.map e.numpy.normalize)).map Prod.fst =
        cached.map Prod.fst ++ missing canonicals cached := by
    rw [List.map_append, hasked.map_fst, hasked'.map_fst]
  have hnodup := nodup_missing_append hcanonicals hcached
  refine ⟨?_, ?_, hnodup, ?_, ?_, ?_, ?_⟩
  · rw [hkeys]
    exact List.nodup_append_comm.mp hnodup
  · intro record hrecord
    rw [hkeys, List.mem_append]
    exact hcanonicals.cached_or_missing cached hrecord
  · intro fingerprint hmem
    rw [hkeys, List.mem_append]
    exact (List.mem_append.mp hmem).symm
  · intro entry
    have hboth : entry.1 ∈ missing canonicals cached ++ cached.map Prod.fst ↔
        entry.1 ∈ cached.map Prod.fst ++ missing canonicals cached := by
      rw [List.mem_append, List.mem_append, or_comm]
    simp only [answers_pair_iff hasked.answer hasked'.answer, or_and_right, exists_or, and_or_left]
    rw [← mem_asked_iff hcanonicals hasked, ← mem_asked_iff hcanonicals hasked', List.mem_append, hboth,
      ← hkeys]
    constructor
    · rintro ⟨hentry | hentry, -⟩
      · exact .inr hentry
      · exact .inl hentry
    · intro hentry
      refine ⟨hentry.symm, List.mem_map_of_mem (List.mem_append.mpr hentry.symm)⟩
  · intro entry hentry hnot
    refine absurd ?_ hnot
    rw [List.mem_append, or_comm, ← List.mem_append, ← hkeys]
    exact List.mem_map_of_mem hentry
  · intro record hrecord
    rw [List.flatten_cons, List.flatten_singleton, List.mem_append, List.mem_append,
      hcanonicals.mem_texts_iff hasked.lookups hrecord, hcanonicals.mem_texts_iff hasked'.lookups hrecord]

theorem rewidened_nil : rewidened cached [] = false := by
  simp [rewidened]

/-- Whatever the provider answers, a matrix that is returned is right. -/
theorem embedMissing_faithful (hcanonicals : e.Canonicalizes records canonicals)
    (hcached : FromCache e canonicals cached) {matrix : List (List F)}
    (hok : (e.embedMissing records canonicals cached).result = .ok matrix) :
    Faithful e records (e.embedMissing records canonicals cached) matrix := by
  have hsame : ∀ record ∈ records, ∀ other ∈ records, e.fingerprint record = e.fingerprint other →
      e.canonical record = e.canonical other := fun record hrecord other hother =>
    hcanonicals.canonical_eq hrecord hother
  unfold embedMissing at hok ⊢
  dsimp only at hok ⊢
  by_cases hnone : missing canonicals cached = []
  · have hsourced := sourced_of_cache hcanonicals hcached hnone
    simp only [hnone, embedFingerprints_nil, rewidened_nil, Bool.false_eq_true, if_false] at hok ⊢
    exact hsourced.faithful hsame hok
  · split at hok
    · cases hok
    · next fresh hfresh =>
        obtain ⟨texts, raw, hasked, hcalls, rfl⟩ := embedFingerprints_ok hnone hfresh
        split at hok
        · next hwidened =>
            have hne : cached.map Prod.fst ≠ [] := by
              intro hnil
              rw [List.map_eq_nil_iff] at hnil
              simp [rewidened, hnil] at hwidened
            rw [if_pos hwidened]
            split at hok
            · cases hok
            · next recomputed hrecomputed =>
                obtain ⟨texts', raw', hasked', hcalls', rfl⟩ := embedFingerprints_ok hne hrecomputed
                rw [hcalls, hcalls'] at hok ⊢
                exact (sourced_of_both hcanonicals hcached hasked hasked').faithful hsame hok
        · next hkept =>
            rw [if_neg hkept]
            rw [hcalls] at hok ⊢
            exact (sourced_of_first hcanonicals hcached hasked).faithful hsame hok

/-! ### No prompt twice -/

theorem calls_sublist (hcanonicals : e.Canonicalizes records canonicals) (call : ℕ)
    (fingerprints : List String) : ((e.embedFingerprints canonicals call fingerprints).calls.flatten.map
      e.buildPromptFingerprint).Sublist fingerprints := by
  obtain hnone | ⟨texts, hlookups, hcalls⟩ := calls_embedFingerprints (e := e) canonicals call fingerprints
  · rw [hnone]
    exact List.nil_sublist _
  · rw [hcalls, List.flatten_singleton, (hcanonicals.fingerprints_of_texts hlookups).1]

theorem calls_finish (calls : List (List String)) (embedded : List String)
    (cached fresh : List (String × List F)) : (e.finish records calls embedded cached fresh).calls = calls := by
  unfold finish
  dsimp only
  split
  · rfl
  · split <;> rfl

theorem nodup_calls_embedMissing (hcanonicals : e.Canonicalizes records canonicals)
    (hcached : FromCache e canonicals cached) :
    (e.embedMissing records canonicals cached).calls.flatten.Nodup := by
  have hfirst := calls_sublist hcanonicals 0 (missing canonicals cached)
  have hsecond := calls_sublist hcanonicals 1 (cached.map Prod.fst)
  have hnodup := nodup_missing_append hcanonicals hcached
  -- The fingerprints that are asked for are among the missing ones and those of the cache.
  have hone {calls : List (List String)}
      (hcalls : calls = (e.embedFingerprints canonicals 0 (missing canonicals cached)).calls) :
      calls.flatten.Nodup := by
    rw [hcalls]
    exact (hnodup.of_append_left.sublist hfirst).of_map
  have htwo {calls : List (List String)}
      (hcalls : calls = (e.embedFingerprints canonicals 0 (missing canonicals cached)).calls ++
        (e.embedFingerprints canonicals 1 (cached.map Prod.fst)).calls) : calls.flatten.Nodup := by
    rw [hcalls, List.flatten_append]
    apply List.Nodup.of_map e.buildPromptFingerprint
    rw [List.map_append]
    exact hnodup.sublist (hfirst.append hsecond)
  unfold embedMissing
  dsimp only
  split
  · exact hone rfl
  · split
    · split
      · exact htwo rfl
      · exact htwo (calls_finish _ _ _ _)
    · exact hone (calls_finish _ _ _ _)

end Missing

/-! ### Every run -/

section Runs

variable (hdigest : ∀ text, strip (e.sha256 text).toList = (e.sha256 text).toList)

include hdigest

theorem fromCache_cachedVectors {canonicals : List (String × String)} {rows : List (CachedEmbedding F)}
    (hcanonicals : e.Canonicalizes records canonicals)
    (hload : e.loadCachedEmbeddings (canonicals.map Prod.fst) = .ok rows) :
    FromCache e canonicals (e.cachedVectors rows (canonicals.map Prod.fst)) := by
  have hstrip : ∀ fingerprint ∈ canonicals.map Prod.fst, strip fingerprint.toList = fingerprint.toList := by
    rw [List.forall_mem_map]
    intro entry hentry
    obtain ⟨record, -, rfl⟩ := hcanonicals.source entry hentry
    exact hdigest _
  obtain ⟨hnodup, hrectangular⟩ := vectors_cachedVectors hcanonicals.nodup hload hstrip
  refine ⟨hnodup, hrectangular, fun entry hentry => (mem_cachedVectors hentry).1, fun entry hentry => ?_⟩
  obtain ⟨hmem, hvector⟩ := mem_cachedVectors hentry
  obtain ⟨values, hreused, heq⟩ := (cachedVector_eq_some_iff hload hstrip hmem).mp hvector
  exact ⟨values, hreused, heq⟩

/-- A matrix that is returned has in every row the vector of its record's prompt. -/
theorem embedRecords_faithful {matrix : List (List F)} (hok : (e.embedRecords records).result = .ok matrix) :
    Faithful e records (e.embedRecords records) matrix := by
  unfold embedRecords at hok ⊢
  split at hok
  · next hempty =>
      rw [if_pos hempty]
      obtain rfl := Except.ok.inj hok
      rw [List.isEmpty_iff.mp hempty]
      exact ⟨rfl, rfl, ⟨0, by simp⟩, by simp, by simp, List.nodup_nil⟩
  · next hne =>
      rw [if_neg hne]
      split at hok
      · cases hok
      · next canonicals hcanonicals =>
          split at hok
          · cases hok
          · next hactive =>
              rw [if_neg hactive]
              split at hok
              · cases hok
              · next rows hload =>
                  have hsources := canonicalizes_of_ok hcanonicals
                  exact embedMissing_faithful hsources (fromCache_cachedVectors hdigest hsources hload) hok

/-- However a run ends, no prompt is sent twice. -/
theorem nodup_calls_embedRecords (records : List InteractionRecord) :
    (e.embedRecords records).calls.flatten.Nodup := by
  unfold embedRecords
  split
  · exact List.nodup_nil
  · split
    · exact List.nodup_nil
    · next canonicals hcanonicals =>
        split
        · exact List.nodup_nil
        · split
          · exact List.nodup_nil
          · next rows hload =>
              have hsources := canonicalizes_of_ok hcanonicals
              exact nodup_calls_embedMissing hsources (fromCache_cachedVectors hdigest hsources hload)

end Runs

end Embedder

end CoreMesh.LogMiner
