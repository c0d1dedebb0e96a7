import CoreMesh.Lib.Binary64
import CoreMesh.LogMiner.EmbeddingNorms

/-!
# Runs of the embedding stage

When `_embed_records` is faithful, in terms of the records, the cache and the provider. A run asks for the
prompts without a row that is reused, and for the others after them if the width of the vectors has changed.
-/

namespace CoreMesh.LogMiner

open Outcome PyText

variable {F : Type}

namespace Embedder

variable {e : Embedder F} {records : List InteractionRecord} {canonicals : List (String × String)}
  {rows : List (CachedEmbedding F)} {width : ℕ}

/-! ### Prompts -/

/-- The prompts of the records, each of them once. -/
def prompts (e : Embedder F) (records : List InteractionRecord) : List String :=
  (records.map e.canonical).eraseDups

theorem prompts_concat (done : List InteractionRecord) (record : InteractionRecord) :
    e.prompts (done ++ [record]) =
      if e.canonical record ∈ done.map e.canonical then e.prompts done
      else e.prompts done ++ [e.canonical record] := by
  rw [prompts, prompts, List.map_append, List.eraseDups_append, List.map_singleton, List.removeAll,
    List.filter_singleton]
  by_cases hmem : e.canonical record ∈ done.map e.canonical
  · have helem : (done.map e.canonical).elem (e.canonical record) = true := List.elem_iff.mpr hmem
    rw [if_pos hmem, helem]
    exact List.append_nil _
  · have helem : (done.map e.canonical).elem (e.canonical record) = false := by
      rw [← Bool.not_eq_true, List.elem_iff]
      exact hmem
    rw [if_neg hmem, helem]
    rfl

theorem mem_prompts {prompt : String} :
    prompt ∈ e.prompts records ↔ ∃ record ∈ records, e.canonical record = prompt := by
  rw [prompts, List.mem_eraseDups, List.mem_map]

/-- The values of the only row of a prompt, next to which no prompt of the records has a row of another
width. -/
structure Kept (e : Embedder F) (records : List InteractionRecord) (fingerprint : String) (values : List F) :
    Prop where
  reused : Reused e fingerprint values
  width : ∀ record ∈ records, ∀ other, Reused e (e.fingerprint record) other → other.length = values.length

section Texts

open Classical

/-- The prompts whose vectors are taken from the cache. -/
noncomputable def keptPrompts (e : Embedder F) (records : List InteractionRecord) : List String :=
  (e.prompts records).filter fun prompt => decide (∃ values, Kept e records (e.buildPromptFingerprint prompt) values)

/-- The prompts that the provider is asked for. -/
noncomputable def missingPrompts (e : Embedder F) (records : List InteractionRecord) : List String :=
  (e.prompts records).filter fun prompt => decide ¬∃ values, Kept e records (e.buildPromptFingerprint prompt) values

theorem mem_missingPrompts {prompt : String} : prompt ∈ e.missingPrompts records ↔
    prompt ∈ e.prompts records ∧ ¬∃ values, Kept e records (e.buildPromptFingerprint prompt) values := by
  simp only [missingPrompts, List.mem_filter, decide_eq_true_iff]

end Texts

/-- The dictionary of the prompts is in their order. -/
theorem canonicals_eq (hok : e.canonicalByFingerprint records = .ok canonicals) :
    canonicals = (e.prompts records).map fun prompt => (e.buildPromptFingerprint prompt, prompt) := by
  have hboth := foldlM_eq_ok (fun done canonicals => e.Canonicalizes done canonicals ∧
      canonicals = (e.prompts done).map fun prompt => (e.buildPromptFingerprint prompt, prompt)) ?_ ?_ hok
  · exact hboth.2
  · exact ⟨⟨List.nodup_nil, by simp, by simp⟩, rfl⟩
  · intro done record rest canonicals canonicals' _ hdone hstep
    obtain ⟨hsources, heq⟩ := hdone
    split at hstep
    · next hfresh =>
        obtain rfl := Except.ok.inj hstep
        refine ⟨hsources.added hfresh, ?_⟩
        have hnew : e.canonical record ∉ done.map e.canonical := by
          intro hmem
          obtain ⟨other, hother, hsame⟩ := List.mem_map.mp hmem
          have hfound := hsources.lookup other hother
          rw [fingerprint, hsame] at hfound
          rw [fingerprint, hfound] at hfresh
          cases hfresh
        rw [prompts_concat, if_neg hnew, List.map_append, ← heq]
        rfl
    · next previous hprevious =>
        split at hstep
        · next hsame =>
            obtain rfl := Except.ok.inj hstep
            refine ⟨hsources.known (by rw [hprevious, hsame]), ?_⟩
            have hold : e.canonical record ∈ done.map e.canonical := by
              obtain ⟨other, hother, -, htext⟩ := hsources.fingerprint_eq hprevious
              rw [← hsame, htext]
              exact List.mem_map_of_mem hother
            rw [prompts_concat, if_pos hold, ← heq]
        · cases hstep

theorem map_fst_canonicals (hok : e.canonicalByFingerprint records = .ok canonicals) :
    canonicals.map Prod.fst = (e.prompts records).map e.buildPromptFingerprint := by
  rw [canonicals_eq hok, List.map_map]
  rfl

/-- The texts of a call are the prompts whose fingerprints it is for. -/
theorem steadyAnswers_iff (hcanonicals : e.Canonicalizes records canonicals) (call : ℕ) {texts : List String}
    (htexts : ∀ text ∈ texts, text ∈ e.prompts records) :
    SteadyAnswers e canonicals call (texts.map e.buildPromptFingerprint) ↔
      ∀ raw, e.embed call texts = some raw → ∀ vector ∈ raw, e.numpy.Steady vector := by
  have hlookups : (texts.map e.buildPromptFingerprint).mapM (fun fingerprint => canonicals.lookup fingerprint) =
      some texts := by
    rw [mapM_eq_some_iff_forall₂, List.forall₂_map_left_iff, List.forall₂_same]
    intro text htext
    obtain ⟨record, hrecord, rfl⟩ := mem_prompts.mp (htexts text htext)
    exact hcanonicals.lookup record hrecord
  constructor
  · intro hsteady raw
    exact hsteady texts raw hlookups
  · intro hsteady texts' raw htexts'
    rw [hlookups] at htexts'
    obtain rfl := Option.some.inj htexts'
    exact hsteady raw

/-! ### The vectors of the cache -/

/-- A part of a list without duplicates is what is left of the list by its members. -/
theorem eq_filter_of_sublist {α : Type} [DecidableEq α] {l l' : List α} (hsub : l.Sublist l')
    (hnodup : l'.Nodup) : l = l'.filter fun a => decide (a ∈ l) := by
  have hself : l.filter (fun a => decide (a ∈ l)) = l := by
    rw [List.filter_eq_self]
    exact fun a ha => decide_eq_true ha
  have hpart : l.Sublist (l'.filter fun a => decide (a ∈ l)) := by
    have hfiltered := hsub.filter fun a => decide (a ∈ l)
    rwa [hself] at hfiltered
  apply hpart.eq_of_length_le
  apply List.Subperm.length_le
  apply (hnodup.filter _).subperm
  intro a ha
  exact of_decide_eq_true (List.mem_filter.mp ha).2

section Cached

variable (hdigest : ∀ text, strip (e.sha256 text).toList = (e.sha256 text).toList)
  (hok : e.canonicalByFingerprint records = .ok canonicals)
  (hload : e.loadCachedEmbeddings (canonicals.map Prod.fst) = .ok rows)

include hdigest hok hload

theorem cachedVector_iff {record : InteractionRecord} (hrecord : record ∈ records) {vector : List F} :
    e.cachedVector rows (e.fingerprint record) = some vector ↔
      ∃ values, Reused e (e.fingerprint record) values ∧ vector = e.numpy.normalize values := by
  apply cachedVector_eq_some_iff hload
  · rw [map_fst_canonicals hok, List.forall_mem_map]
    exact fun prompt _ => hdigest _
  · rw [map_fst_canonicals hok]
    exact List.mem_map_of_mem (mem_prompts.mpr ⟨record, hrecord, rfl⟩)

/-- The vectors that are taken from the cache are those of the rows that are kept. -/
theorem mem_cachedVectors_iff {entry : String × List F} :
    entry ∈ e.cachedVectors rows (canonicals.map Prod.fst) ↔
      ∃ record ∈ records, ∃ values, Kept e records (e.fingerprint record) values ∧
        entry = (e.fingerprint record, e.numpy.normalize values) := by
  have hall {entry : String × List F} :
      entry ∈ (canonicals.map Prod.fst).filterMap (fun fingerprint =>
        (e.cachedVector rows fingerprint).map fun vector => (fingerprint, vector)) ↔
      ∃ record ∈ records, ∃ values, Reused e (e.fingerprint record) values ∧
        entry = (e.fingerprint record, e.numpy.normalize values) := by
    rw [map_fst_canonicals hok, List.mem_filterMap]
    constructor
    · rintro ⟨fingerprint, hmem, hentry⟩
      obtain ⟨prompt, hprompt, rfl⟩ := List.mem_map.mp hmem
      obtain ⟨record, hrecord, rfl⟩ := mem_prompts.mp hprompt
      obtain ⟨vector, hvector, rfl⟩ := Option.map_eq_some_iff.mp hentry
      obtain ⟨values, hreused, rfl⟩ := (cachedVector_iff hdigest hok hload hrecord).mp hvector
      exact ⟨record, hrecord, values, hreused, rfl⟩
    · rintro ⟨record, hrecord, values, hreused, rfl⟩
      refine ⟨e.fingerprint record, List.mem_map_of_mem (mem_prompts.mpr ⟨record, hrecord, rfl⟩), ?_⟩
      rw [(cachedVector_iff hdigest hok hload hrecord).mpr ⟨values, hreused, rfl⟩]
      rfl
  unfold cachedVectors
  dsimp only
  split
  · next hmixed =>
      -- Two of the rows are of different widths, and no row is kept next to both.
      obtain ⟨first, hfirst, second, hsecond, hne⟩ := Finset.one_lt_card.mp hmixed
      have hwidths {n : ℕ} (hn : n ∈ widths ((canonicals.map Prod.fst).filterMap fun fingerprint =>
          (e.cachedVector rows fingerprint).map fun vector => (fingerprint, vector))) :
          ∃ record ∈ records, ∃ values, Reused e (e.fingerprint record) values ∧ values.length = n := by
        rw [widths, List.mem_toFinset, List.mem_map] at hn
        obtain ⟨entry, hentry, rfl⟩ := hn
        obtain ⟨record, hrecord, values, hreused, rfl⟩ := hall.mp hentry
        exact ⟨record, hrecord, values, hreused, (Numpy.length_normalize values).symm⟩
      obtain ⟨left, hleft, values, hvalues, rfl⟩ := hwidths hfirst
      obtain ⟨right, hright, values', hvalues', rfl⟩ := hwidths hsecond
      constructor
      · intro hmem
        cases hmem
      · rintro ⟨record, hrecord, kept, hkept, -⟩
        exact absurd ((hkept.width left hleft values hvalues).trans
          (hkept.width right hright values' hvalues').symm) hne
  · next hone =>
      rw [hall]
      constructor
      · rintro ⟨record, hrecord, values, hreused, rfl⟩
        refine ⟨record, hrecord, values, ⟨hreused, ?_⟩, rfl⟩
        intro other hother values' hreused'
        apply Finset.card_le_one.mp (not_lt.mp hone)
        · rw [widths, List.mem_toFinset, List.mem_map]
          exact ⟨_, hall.mpr ⟨other, hother, values', hreused', rfl⟩, Numpy.length_normalize values'⟩
        · rw [widths, List.mem_toFinset, List.mem_map]
          exact ⟨_, hall.mpr ⟨record, hrecord, values, hreused, rfl⟩, Numpy.length_normalize values⟩
      · rintro ⟨record, hrecord, values, hkept, rfl⟩
        exact ⟨record, hrecord, values, hkept.reused, rfl⟩

theorem mem_map_fst_cachedVectors {prompt : String} (hprompt : prompt ∈ e.prompts records) :
    e.buildPromptFingerprint prompt ∈ (e.cachedVectors rows (canonicals.map Prod.fst)).map Prod.fst ↔
      ∃ values, Kept e records (e.buildPromptFingerprint prompt) values := by
  rw [List.mem_map]
  constructor
  · rintro ⟨entry, hentry, hkey⟩
    obtain ⟨record, -, values, hkept, rfl⟩ := (mem_cachedVectors_iff hdigest hok hload).mp hentry
    exact ⟨values, by rwa [← hkey]⟩
  · rintro ⟨values, hkept⟩
    obtain ⟨record, hrecord, rfl⟩ := mem_prompts.mp hprompt
    exact ⟨_, (mem_cachedVectors_iff hdigest hok hload).mpr ⟨record, hrecord, values, hkept, rfl⟩, rfl⟩

/-- A list is what is left of it by the prompts that it is made of. -/
theorem missing_eq : missing canonicals (e.cachedVectors rows (canonicals.map Prod.fst)) =
    (e.missingPrompts records).map e.buildPromptFingerprint := by
  have hfilter : missing canonicals (e.cachedVectors rows (canonicals.map Prod.fst)) =
      (canonicals.map Prod.fst).filter fun fingerprint =>
        decide (fingerprint ∉ (e.cachedVectors rows (canonicals.map Prod.fst)).map Prod.fst) := by
    unfold missing
    apply List.filter_congr
    intro fingerprint hmem
    rw [Bool.eq_iff_iff, decide_eq_true_iff]
    have hiff : fingerprint ∈ missing canonicals (e.cachedVectors rows (canonicals.map Prod.fst)) ↔ _ :=
      mem_missing_iff
    rw [missing, List.mem_filter, and_congr_right_iff] at hiff
    exact hiff hmem
  rw [hfilter, map_fst_canonicals hok, List.filter_map, missingPrompts]
  apply congrArg
  apply List.filter_congr
  intro prompt hprompt
  rw [Function.comp_apply, decide_eq_decide, not_iff_not, ← map_fst_canonicals hok]
  exact mem_map_fst_cachedVectors hdigest hok hload hprompt

theorem map_fst_cachedVectors : (e.cachedVectors rows (canonicals.map Prod.fst)).map Prod.fst =
    (e.keptPrompts records).map e.buildPromptFingerprint := by
  have hfilter : (e.cachedVectors rows (canonicals.map Prod.fst)).map Prod.fst =
      (canonicals.map Prod.fst).filter fun fingerprint =>
        decide (fingerprint ∈ (e.cachedVectors rows (canonicals.map Prod.fst)).map Prod.fst) := by
    apply eq_filter_of_sublist (sublist_cachedVectors rows _)
    exact (canonicalizes_of_ok hok).nodup
  rw [hfilter, map_fst_canonicals hok, List.filter_map, keptPrompts]
  apply congrArg
  apply List.filter_congr
  intro prompt hprompt
  rw [Function.comp_apply, decide_eq_decide, ← map_fst_canonicals hok]
  exact mem_map_fst_cachedVectors hdigest hok hload hprompt

end Cached

/-! ### Every run -/

/-- The provider is asked for some prompts, and its width is not that of the rows that are kept. -/
def Rewidens (e : Embedder F) (records : List InteractionRecord) (width : ℕ) : Prop :=
  e.missingPrompts records ≠ [] ∧
    ∃ record ∈ records, ∃ values, Kept e records (e.fingerprint record) values ∧ values.length ≠ width

/-- What a run takes: prompts that differ have different fingerprints, the rows of the cache under them are
valid, and so are the norms of what is used. These are the rows that are kept unless the width changes,
the provider's answer to the prompts without such a row, and after a change of the width its answer to the
others. -/
structure Returns (e : Embedder F) (records : List InteractionRecord) (width : ℕ) : Prop where
  collisionless : Collisionless e records
  loads : ∀ row ∈ e.cache, ∀ record ∈ records, row.profile = e.profile (e.fingerprint record) →
    ∃ embedding, row.load = .ok embedding
  missing : ∀ raw, e.embed 0 (e.missingPrompts records) = some raw → ∀ vector ∈ raw, e.numpy.Steady vector
  kept : ¬Rewidens e records width → ∀ record ∈ records, ∀ values,
    Kept e records (e.fingerprint record) values → e.numpy.Accepts (e.numpy.normalize values)
  recomputed : Rewidens e records width →
    ∀ raw, e.embed 1 (e.keptPrompts records) = some raw → ∀ vector ∈ raw, e.numpy.Steady vector

/-- The vectors that a run uses, in terms of what it starts from. -/
theorem vectorsSteady_iff (hdigest : ∀ text, strip (e.sha256 text).toList = (e.sha256 text).toList)
    (hok : e.canonicalByFingerprint records = .ok canonicals)
    (hload : e.loadCachedEmbeddings (canonicals.map Prod.fst) = .ok rows) :
    VectorsSteady e canonicals (e.cachedVectors rows (canonicals.map Prod.fst)) width ↔
      (∀ raw, e.embed 0 (e.missingPrompts records) = some raw → ∀ vector ∈ raw, e.numpy.Steady vector) ∧
      (¬Rewidens e records width → ∀ record ∈ records, ∀ values,
        Kept e records (e.fingerprint record) values → e.numpy.Accepts (e.numpy.normalize values)) ∧
      (Rewidens e records width →
        ∀ raw, e.embed 1 (e.keptPrompts records) = some raw → ∀ vector ∈ raw, e.numpy.Steady vector) := by
  have hsources := canonicalizes_of_ok hok
  have hmem {P : List F → Prop} :
      (∀ entry ∈ e.cachedVectors rows (canonicals.map Prod.fst), P entry.2) ↔
        ∀ record ∈ records, ∀ values, Kept e records (e.fingerprint record) values →
          P (e.numpy.normalize values) := by
    constructor
    · intro hall record hrecord values hkept
      exact hall _ ((mem_cachedVectors_iff hdigest hok hload).mpr ⟨record, hrecord, values, hkept, rfl⟩)
    · intro hall entry hentry
      obtain ⟨record, hrecord, values, hkept, rfl⟩ := (mem_cachedVectors_iff hdigest hok hload).mp hentry
      exact hall record hrecord values hkept
  have hchanges : WidthChanges canonicals (e.cachedVectors rows (canonicals.map Prod.fst)) width ↔
      Rewidens e records width := by
    unfold WidthChanges Rewidens
    apply and_congr
    · rw [missing_eq hdigest hok hload, ne_eq, List.map_eq_nil_iff]
    · have hwidth := not_congr (hmem (P := fun vector => vector.length = width))
      simp only [Numpy.length_normalize] at hwidth
      push Not at hwidth
      exact hwidth
  have hmissing := steadyAnswers_iff hsources 0 fun text (htext : text ∈ e.missingPrompts records) =>
    List.mem_of_mem_filter htext
  have hkept := steadyAnswers_iff hsources 1 fun text (htext : text ∈ e.keptPrompts records) =>
    List.mem_of_mem_filter htext
  rw [← missing_eq hdigest hok hload] at hmissing
  rw [← map_fst_cachedVectors hdigest hok hload] at hkept
  rw [← hmissing, ← hkept, ← hmem, ← hchanges]
  constructor
  · intro hsteady
    exact ⟨hsteady.missing, hsteady.kept, hsteady.recomputed⟩
  · rintro ⟨hfirst, hold, hsecond⟩
    exact ⟨hfirst, hold, hsecond⟩

theorem Canonicalizes.ne_nil (hcanonicals : e.Canonicalizes records canonicals) (hrecords : records ≠ []) :
    canonicals.map Prod.fst ≠ [] := by
  obtain ⟨record, hrecord⟩ := List.exists_mem_of_ne_nil records hrecords
  intro hnil
  have hlookup := hcanonicals.lookup record hrecord
  rw [List.map_eq_nil_iff.mp hnil] at hlookup
  cases hlookup

theorem loads_iff (hcanonicals : e.Canonicalizes records canonicals) :
    (∀ row ∈ e.cache, ∀ fingerprint ∈ canonicals.map Prod.fst, row.profile = e.profile fingerprint →
      ∃ embedding, row.load = .ok embedding) ↔
    ∀ row ∈ e.cache, ∀ record ∈ records, row.profile = e.profile (e.fingerprint record) →
      ∃ embedding, row.load = .ok embedding := by
  constructor
  · intro hall row hrow record hrecord hprofile
    obtain ⟨before, after, heq, -⟩ := List.lookup_eq_some_iff.mp (hcanonicals.lookup record hrecord)
    refine hall row hrow _ ?_ hprofile
    rw [heq]
    simp
  · intro hall row hrow fingerprint hmem hprofile
    obtain ⟨record, hrecord, rfl⟩ := keys_of_records hcanonicals hmem
    exact hall row hrow record hrecord hprofile

theorem returns_iff (hdigest : ∀ text, strip (e.sha256 text).toList = (e.sha256 text).toList)
    (hok : e.canonicalByFingerprint records = .ok canonicals)
    (hload : e.loadCachedEmbeddings (canonicals.map Prod.fst) = .ok rows)
    (hloads : ∀ row ∈ e.cache, ∀ record ∈ records, row.profile = e.profile (e.fingerprint record) →
      ∃ embedding, row.load = .ok embedding) :
    e.Returns records width ↔
      VectorsSteady e canonicals (e.cachedVectors rows (canonicals.map Prod.fst)) width := by
  rw [vectorsSteady_iff hdigest hok hload]
  constructor
  · intro hreturns
    exact ⟨hreturns.missing, hreturns.kept, hreturns.recomputed⟩
  · rintro ⟨hmissing, hkept, hrecomputed⟩
    exact ⟨exists_canonicals_iff.mp ⟨canonicals, hok⟩, hloads, hmissing, hkept, hrecomputed⟩

theorem embedRecords_ok_iff (hdigest : ∀ text, strip (e.sha256 text).toList = (e.sha256 text).toList)
    (hactive : e.Active) (hprovides : e.Provides width) :
    (∃ matrix, (e.embedRecords records).result = .ok matrix) ↔ e.Returns records width := by
  by_cases hrecords : records = []
  · subst hrecords
    have hok : (e.embedRecords []).result = .ok [] := rfl
    refine ⟨fun _ => ?_, fun _ => ⟨[], hok⟩⟩
    have hcanonicals : e.canonicalByFingerprint [] = .ok [] := rfl
    have hload : e.loadCachedEmbeddings [] = .ok [] := rfl
    rw [returns_iff hdigest hcanonicals hload (by simp)]
    exact ⟨steadyAnswers_nil hprovides [] 0, fun _ => by simp [cachedVectors],
      fun hchanges => absurd rfl hchanges.1⟩
  have hsome : records.isEmpty = false := by simpa using hrecords
  constructor
  · rintro ⟨matrix, hok⟩
    unfold embedRecords at hok
    simp only [hsome, hactive _, Bool.false_eq_true, if_false, Bool.not_true] at hok
    split at hok
    · cases hok
    · next canonicals hcanonicals =>
        split at hok
        · cases hok
        · next rows hload =>
            have hsources := canonicalizes_of_ok hcanonicals
            have hne := hsources.ne_nil hrecords
            rw [returns_iff hdigest hcanonicals hload
              ((loads_iff hsources).mp ((exists_rows_iff hne).mp ⟨rows, hload⟩))]
            exact (embedMissing_ok_iff hactive hrecords hsources
              (fromCache_cachedVectors hdigest hsources hload) hprovides).mp ⟨matrix, hok⟩
  · intro hreturns
    obtain ⟨canonicals, hcanonicals⟩ := exists_canonicals_iff.mpr hreturns.collisionless
    have hsources := canonicalizes_of_ok hcanonicals
    have hne := hsources.ne_nil hrecords
    obtain ⟨rows, hload⟩ := (exists_rows_iff hne).mpr ((loads_iff hsources).mpr hreturns.loads)
    obtain ⟨matrix, hok⟩ := (embedMissing_ok_iff hactive hrecords hsources
      (fromCache_cachedVectors hdigest hsources hload) hprovides).mpr
        ((returns_iff hdigest hcanonicals hload hreturns.loads).mp hreturns)
    refine ⟨matrix, ?_⟩
    unfold embedRecords
    simp only [hsome, hactive _, Bool.false_eq_true, if_false, Bool.not_true, hcanonicals, hload]
    exact hok

/-- A faithful matrix is returned, and no prompt is sent twice. -/
def ReusesFaithfully (e : Embedder F) (records : List InteractionRecord) : Prop :=
  (e.embedRecords records).calls.flatten.Nodup ∧
    ∃ matrix, Faithful e records (e.embedRecords records) matrix

theorem reusesFaithfully_iff_ok (hdigest : ∀ text, strip (e.sha256 text).toList = (e.sha256 text).toList) :
    e.ReusesFaithfully records ↔ ∃ matrix, (e.embedRecords records).result = .ok matrix := by
  constructor
  · rintro ⟨-, matrix, hfaithful⟩
    exact ⟨matrix, hfaithful.result⟩
  · rintro ⟨matrix, hok⟩
    exact ⟨nodup_calls_embedRecords hdigest records, matrix, embedRecords_faithful hdigest hok⟩

/-- A run is faithful exactly if it can normalize what it uses. -/
theorem reusesFaithfully_iff_returns
    (hdigest : ∀ text, strip (e.sha256 text).toList = (e.sha256 text).toList) (hactive : e.Active)
    (hprovides : e.Provides width) : e.ReusesFaithfully records ↔ e.Returns records width := by
  rw [reusesFaithfully_iff_ok hdigest]
  exact embedRecords_ok_iff hdigest hactive hprovides

/-- It is enough that all vectors around can be normalized twice. -/
theorem returns_of_steady (hcollisionless : Collisionless e records)
    (hloads : ∀ row ∈ e.cache, ∀ record ∈ records, row.profile = e.profile (e.fingerprint record) →
      ∃ embedding, row.load = .ok embedding)
    (hembed : ∀ call texts raw, e.embed call texts = some raw → ∀ vector ∈ raw, e.numpy.Steady vector)
    (hcache : ∀ fingerprint values, Reused e fingerprint values → e.numpy.Steady values) :
    e.Returns records width where
  collisionless := hcollisionless
  loads := hloads
  missing := hembed 0 _
  kept := fun _ _ _ values hkept => (hcache _ values hkept.reused).again
  recomputed := fun _ => hembed 1 _

end Embedder

/-! ### Norms that are out of range -/

open Binary64

/-- Over float64s, with the squares of a row added in order. -/
def binary64Numpy : Numpy Binary64 where
  isFinite x := match x with
    | .finite _ _ => true
    | _ => false
  isZero x := match x with
    | .finite x _ => decide (x = 0)
    | _ => false
  norm vector := Binary64.sqrt (vector.foldl (fun sum x => add sum (mul x x)) zero)
  divide := Binary64.div
  nonPositive x := le x zero

theorem norm_singleton {x : ℚ} (hx : Representable x) :
    binary64Numpy.norm [.finite x hx] = Binary64.sqrt (ofRat (x * x)) := by
  show Binary64.sqrt (add zero (ofRat (x * x))) = _
  rw [add_zero_left]

theorem representable_one : Representable 1 := by
  have hone := representable_intCast (n := 1) (by norm_num)
  rwa [Int.cast_one] at hone

theorem representable_large : Representable (2 ^ 600) :=
  ⟨1, 600, by norm_num, by norm_num, by norm_num, by norm_num⟩

/-- Its square is beyond the last float64. -/
def large : Binary64 := .finite (2 ^ 600) representable_large

def one : Binary64 := .finite 1 representable_one

theorem norm_large : binary64Numpy.norm [large] = .infinity false := by
  have hsquare : ofRat ((2 : ℚ) ^ 600 * 2 ^ 600) = .infinity false := by
    apply ofRat_of_large
    rw [← pow_add, ← zpow_natCast]
    exact zpow_le_zpow_right₀ (by norm_num) (by norm_num)
  rw [large, norm_singleton, hsquare]
  rfl

theorem normalize_large : binary64Numpy.normalize [large] = [zero] := by
  rw [Numpy.normalize, norm_large]
  rfl

theorem norm_zero : binary64Numpy.norm [zero] = zero := by
  have hsquare : ofRat ((0 : ℚ) * 0) = zero := by
    rw [mul_zero, ofRat_of_representable representable_zero]
    rfl
  have hunits : (0 : ℚ) = (0 : ℕ) / 2 ^ 600 := by rw [Nat.cast_zero, zero_div]
  have hroot := sqrt_sq representable_zero (by rw [mul_zero]; exact representable_zero) hunits
  simp only [mul_zero] at hroot
  rw [zero, norm_singleton, hsquare]
  exact hroot

theorem norm_one : binary64Numpy.norm [one] = one := by
  have hunits : (1 : ℚ) = (2 ^ 600 : ℕ) / 2 ^ 600 := by
    rw [Nat.cast_pow, Nat.cast_ofNat, div_self (by positivity)]
  have hroot := sqrt_sq representable_one (by rw [mul_one]; exact representable_one) hunits
  simp only [mul_one] at hroot
  rw [one, norm_singleton, mul_one, ofRat_of_representable representable_one]
  exact hroot

theorem steady_one : binary64Numpy.Steady [one] := by
  have haccepts : binary64Numpy.Accepts [one] := by
    refine ⟨by simp [one, binary64Numpy], ?_⟩
    rw [norm_one]
    rfl
  have hself : binary64Numpy.normalize [one] = [one] := by
    rw [Numpy.normalize, norm_one]
    show [ofRat (1 / 1)] = _
    rw [div_one, ofRat_of_representable representable_one]
    rfl
  refine ⟨haccepts, ?_⟩
  rwa [hself]

/-- The vector is accepted, and what it is normalized to is not. -/
theorem large_not_steady : binary64Numpy.Accepts [large] ∧
    ¬binary64Numpy.Accepts (binary64Numpy.normalize [large]) := by
  refine ⟨⟨by simp [large, binary64Numpy], ?_⟩, fun haccepts => ?_⟩
  · rw [norm_large]
    rfl
  · have hpositive := haccepts.positive
    rw [normalize_large, norm_zero] at hpositive
    exact absurd hpositive (by decide)

/-! ### A question that is asked twice -/

def questions : List InteractionRecord := [lineRecord "a" "Is it safe?", lineRecord "b" "Is  it safe?"]

/-- A miner of the questions, whose provider answers each text by one number. -/
def questionEmbedder (cache : List (CacheRow Binary64)) (answer : Binary64) : Embedder Binary64 where
  numpy := binary64Numpy
  nfkc := id
  sha256 _ := "4b8d6ae807a8cd0347ea58d301bc4281e1b018942893d4f97673683996206d6b"
  providerName := "openai"
  embeddingModel := "text-embedding-3-small"
  inputVersion := "nfkc-whitespace-v1"
  cache := cache
  embed _ texts := some (texts.map fun _ => [answer])
  active _ := true

def cachedAnswer (value : Option Binary64) : CacheRow Binary64 where
  profile := (questionEmbedder [] one).profile
    "4b8d6ae807a8cd0347ea58d301bc4281e1b018942893d4f97673683996206d6b"
  embeddingDimensions := 1
  embeddingValues := [value]

section Questions

variable {cache : List (CacheRow Binary64)} {x : ℚ} {hx : Representable x}

theorem digest_questionEmbedder {answer : Binary64} (text : String) :
    strip ((questionEmbedder cache answer).sha256 text).toList =
      ((questionEmbedder cache answer).sha256 text).toList := by
  have hstrip : strip "4b8d6ae807a8cd0347ea58d301bc4281e1b018942893d4f97673683996206d6b".toList =
      "4b8d6ae807a8cd0347ea58d301bc4281e1b018942893d4f97673683996206d6b".toList := by decide
  exact hstrip

theorem provides_questionEmbedder (hne : x ≠ 0) : (questionEmbedder cache (.finite x hx)).Provides 1 := by
  intro call texts
  refine ⟨_, rfl, by rw [List.length_map], ?_⟩
  intro vector hvector
  obtain ⟨text, -, rfl⟩ := List.mem_map.mp hvector
  refine ⟨rfl, by simp [questionEmbedder, binary64Numpy], .finite x hx, List.mem_singleton.mpr rfl, ?_⟩
  exact decide_eq_false hne

theorem canonical_questions {answer : Binary64} : ∀ record ∈ questions,
    (questionEmbedder cache answer).canonical record = "Is it safe?" := by
  show ∀ record ∈ questions, normalizePrompt id record.redactedPrompt = "Is it safe?"
  decide

theorem prompts_questions {answer : Binary64} :
    (questionEmbedder cache answer).prompts questions = ["Is it safe?"] := by
  show (questions.map fun record => normalizePrompt id record.redactedPrompt).eraseDups = _
  decide

theorem collisionless_questions {answer : Binary64} : (questionEmbedder cache answer).Collisionless questions := by
  intro record hrecord other hother _
  rw [canonical_questions record hrecord, canonical_questions other hother]

theorem reused_cachedAnswer {answer value : Binary64} {text : String}
    (haccepts : binary64Numpy.Accepts [value]) :
    Embedder.Reused (questionEmbedder [cachedAnswer (some value)] answer)
      ((questionEmbedder [cachedAnswer (some value)] answer).sha256 text) [value] :=
  ⟨⟨cachedAnswer (some value), rfl, rfl, rfl⟩, List.cons_ne_nil _ _, haccepts⟩

theorem eq_of_reused_cachedAnswer {answer value : Binary64} {fingerprint : String} {values : List Binary64}
    (hreused : Embedder.Reused (questionEmbedder [cachedAnswer (some value)] answer) fingerprint values) :
    values = [value] := by
  obtain ⟨row, hrow, hvalues, -⟩ := hreused.row
  have hmem : row ∈ (questionEmbedder [cachedAnswer (some value)] answer).cache := by
    apply List.mem_of_mem_filter
    rw [hrow]
    exact List.mem_singleton.mpr rfl
  obtain rfl := List.mem_singleton.mp hmem
  apply List.map_injective_iff.mpr (Option.some_injective Binary64)
  exact hvalues.symm

theorem returns_questions : (questionEmbedder [cachedAnswer (some one)] one).Returns questions 1 := by
  apply Embedder.returns_of_steady collisionless_questions
  · intro row hrow record _ _
    obtain rfl := List.mem_singleton.mp hrow
    exact ⟨_, rfl⟩
  · intro call texts raw hraw vector hvector
    obtain rfl := Option.some.inj hraw
    obtain ⟨text, -, rfl⟩ := List.mem_map.mp hvector
    exact steady_one
  · intro fingerprint values hreused
    rw [eq_of_reused_cachedAnswer hreused]
    exact steady_one

/-- The row of the cache has a norm that no float64 holds. -/
theorem large_row_not_returns :
    ¬(questionEmbedder [cachedAnswer (some large)] one).Returns questions 1 := by
  intro hreturns
  have hkept (record : InteractionRecord) : Embedder.Kept (questionEmbedder [cachedAnswer (some large)] one)
      questions ((questionEmbedder [cachedAnswer (some large)] one).fingerprint record) [large] := by
    refine ⟨reused_cachedAnswer large_not_steady.1, ?_⟩
    intro other _ values hreused
    rw [eq_of_reused_cachedAnswer hreused]
  have hwidth : ¬(questionEmbedder [cachedAnswer (some large)] one).Rewidens questions 1 := by
    rintro ⟨-, record, -, values, hvalues, hne⟩
    rw [eq_of_reused_cachedAnswer hvalues.reused] at hne
    exact hne rfl
  have hrecord : lineRecord "a" "Is it safe?" ∈ questions := List.mem_cons_self
  exact large_not_steady.2 (hreturns.kept hwidth _ hrecord [large] (hkept _))

/-- An element of the row of the cache is null. -/
theorem null_row_not_returns : ¬(questionEmbedder [cachedAnswer none] one).Returns questions 1 := by
  intro hreturns
  have hrecord : lineRecord "a" "Is it safe?" ∈ questions := List.mem_cons_self
  obtain ⟨embedding, hload⟩ := hreturns.loads _ (List.mem_singleton.mpr rfl) _ hrecord rfl
  cases hload

/-- The vector of the provider has a norm that no float64 holds. -/
theorem large_answer_not_returns : ¬(questionEmbedder [] large).Returns questions 1 := by
  intro hreturns
  have hmissing : "Is it safe?" ∈ (questionEmbedder [] large).missingPrompts questions := by
    rw [Embedder.mem_missingPrompts, prompts_questions]
    refine ⟨List.mem_singleton.mpr rfl, ?_⟩
    rintro ⟨values, hkept⟩
    obtain ⟨row, hrow, -⟩ := hkept.reused.row
    cases hrow
  have hsteady := hreturns.missing _ rfl [large] (List.mem_map.mpr ⟨_, hmissing, rfl⟩)
  exact large_not_steady.2 hsteady.again

theorem large_vectors_not_reused :
    [questionEmbedder [cachedAnswer (some large)] one, questionEmbedder [cachedAnswer none] one,
        questionEmbedder [] large].Forall fun e =>
      (∀ text, strip (e.sha256 text).toList = (e.sha256 text).toList) ∧ e.Active ∧ e.Provides 1 ∧
        ¬e.ReusesFaithfully questions := by
  have hcase {cache : List (CacheRow Binary64)} {x : ℚ} {hx : Representable x} (hne : x ≠ 0)
      (hnot : ¬(questionEmbedder cache (.finite x hx)).Returns questions 1) :
      (∀ text, strip ((questionEmbedder cache (.finite x hx)).sha256 text).toList =
        ((questionEmbedder cache (.finite x hx)).sha256 text).toList) ∧
      (questionEmbedder cache (.finite x hx)).Active ∧ (questionEmbedder cache (.finite x hx)).Provides 1 ∧
        ¬(questionEmbedder cache (.finite x hx)).ReusesFaithfully questions := by
    refine ⟨digest_questionEmbedder, fun _ => rfl, provides_questionEmbedder hne, ?_⟩
    rw [Embedder.reusesFaithfully_iff_ok digest_questionEmbedder, Embedder.embedRecords_ok_iff
      digest_questionEmbedder (fun _ => rfl) (provides_questionEmbedder hne)]
    exact hnot
  have hone : (1 : ℚ) ≠ 0 := one_ne_zero
  have hlarge : (2 ^ 600 : ℚ) ≠ 0 := by positivity
  refine ⟨?_, ?_, ?_⟩
  · exact hcase hone large_row_not_returns
  · exact hcase hone null_row_not_returns
  · exact hcase hlarge large_answer_not_returns

theorem reusesFaithfully_iff_returns_questions :
    (questionEmbedder [cachedAnswer (some one)] one).ReusesFaithfully questions := by
  have hone : (1 : ℚ) ≠ 0 := one_ne_zero
  apply (Embedder.reusesFaithfully_iff_returns digest_questionEmbedder (fun _ => rfl)
    (provides_questionEmbedder hone)).mpr
  exact returns_questions

end Questions

end CoreMesh.LogMiner
