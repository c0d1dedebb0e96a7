import Mathlib.Tactic.Positivity
import CoreMesh.Rag.SparseSearch

/-!
# Sparse recall

Which of the chunks that share a token with a query a search finds. The scores of `_SimpleBM25` are
positive for just those, but those of `BM25Okapi` weigh a token that half of the documents have at zero
and one that more of them have at a quarter of the average, and the fallback takes over only if no score
at all is positive.
-/

namespace CoreMesh.Rag

def sharesToken (query doc : List Token) : Bool := query.any fun token => doc.contains token

theorem sharesToken_iff {query doc : List Token} :
    sharesToken query doc = true ↔ ∃ token ∈ query, token ∈ doc := by
  simp [sharesToken]

/-! ### `BM25Okapi` -/

section Okapi

variable {K : Type} [Field K] [LinearOrder K] {log : K → K} {corpus : List (List Token)}

omit [LinearOrder K] in
theorem rawIdf_perm {corpus' : List (List Token)} (hperm : corpus.Perm corpus') :
    rawIdf log corpus = rawIdf log corpus' := by
  funext token
  rw [rawIdf, rawIdf, documentFrequency_perm hperm, hperm.length_eq]

omit [LinearOrder K] in
theorem averageIdf_perm {corpus' : List (List Token)} (hperm : corpus.Perm corpus') :
    averageIdf log corpus = averageIdf log corpus' := by
  have hwords : (vocabulary corpus).Perm (vocabulary corpus') := hperm.flatten.dedup
  rw [averageIdf, averageIdf, rawIdf_perm hperm, (hwords.map _).sum_eq, hwords.length_eq]

theorem okapiScore_perm {corpus' : List (List Token)} (hperm : corpus.Perm corpus') :
    okapiScore log corpus = okapiScore log corpus' := by
  funext query doc
  unfold okapiScore okapiIdf saturation
  rw [rawIdf_perm hperm, averageIdf_perm hperm, avgdl_perm hperm]
  simp only [documentFrequency_perm hperm]

variable (log)

def bm25Okapi : Okapi K where
  score := okapiScore log
  perm _ _ hperm := okapiScore_perm hperm

/-- What the tokens of a query add to the score of a document. -/
def gain (corpus : List (List Token)) (query doc : List Token) : K :=
  (query.map fun token => max (okapiIdf log corpus token) 0 * saturation corpus doc token).sum

/-- What they take from it. -/
def loss (corpus : List (List Token)) (query doc : List Token) : K :=
  (query.map fun token => max (-okapiIdf log corpus token) 0 * saturation corpus doc token).sum

end Okapi

/-! ### Positive scores -/

section Positive

variable {corpus : List (List Token)} {query doc : List Token} {token : Token}

theorem avgdl_nonneg (corpus : List (List Token)) : 0 ≤ avgdl (K := ℝ) corpus := by
  unfold avgdl
  split
  · exact le_rfl
  · positivity

theorem documentFrequency_pos (hdoc : doc ∈ corpus) (htoken : token ∈ doc) :
    0 < documentFrequency corpus token :=
  List.countP_pos_iff.mpr ⟨doc, hdoc, by simpa using htoken⟩

theorem documentFrequency_le (corpus : List (List Token)) (token : Token) :
    documentFrequency corpus token ≤ corpus.length :=
  List.countP_le_length

theorem saturation_of_not_mem (htoken : token ∉ doc) : saturation (K := ℝ) corpus doc token = 0 := by
  simp [saturation, List.count_eq_zero_of_not_mem htoken]

theorem saturation_pos (htoken : token ∈ doc) : 0 < saturation (K := ℝ) corpus doc token := by
  have hcount : (0 : ℝ) < doc.count token := by exact_mod_cast List.count_pos_iff.mpr htoken
  have haverage := avgdl_nonneg corpus
  have hquarter : (1 - 3 / 4 : ℝ) = 1 / 4 := by norm_num
  unfold saturation
  rw [hquarter]
  positivity

theorem saturation_nonneg (corpus : List (List Token)) (doc : List Token) (token : Token) :
    0 ≤ saturation (K := ℝ) corpus doc token := by
  by_cases htoken : token ∈ doc
  · exact (saturation_pos htoken).le
  · exact (saturation_of_not_mem htoken).ge

/-- A sum of terms that are not negative is positive if one of them is. -/
theorem sum_map_pos_iff {α : Type} {f : α → ℝ} (hnonneg : ∀ a, 0 ≤ f a) (l : List α) :
    0 < (l.map f).sum ↔ ∃ a ∈ l, 0 < f a := by
  induction l with
  | nil => simp
  | cons a l ih =>
      have hrest : 0 ≤ (l.map f).sum := List.sum_nonneg fun x hx => by
        obtain ⟨b, -, rfl⟩ := List.mem_map.mp hx
        exact hnonneg b
      rw [List.map_cons, List.sum_cons, List.exists_mem_cons_iff, ← ih]
      constructor
      · intro hpos
        by_contra hnone
        rw [not_or, not_lt, not_lt] at hnone
        linarith
      · rintro (ha | hl)
        · linarith
        · linarith [hnonneg a]

/-- A score of the fallback as a sum over the query. -/
theorem simpleScore_eq (corpus : List (List Token)) (query doc : List Token) :
    simpleScore Real.log corpus query doc = (query.map fun token =>
      if doc.count token = 0 then 0
      else
        let length : ℝ := if avgdl (K := ℝ) corpus = 0 then 1 else avgdl corpus
        idf Real.log corpus token * doc.count token * (3 / 2 + 1) /
          (doc.count token + 3 / 2 * (1 - 3 / 4 + 3 / 4 * doc.length / length))).sum := by
  unfold simpleScore
  rw [List.sum_eq_foldl, List.foldl_map]
  apply List.foldl_ext
  intro score token _
  dsimp only
  split
  · rw [add_zero]
  · rfl

theorem idf_pos (hdoc : doc ∈ corpus) (htoken : token ∈ doc) : 0 < idf Real.log corpus token := by
  have hpos := documentFrequency_pos hdoc htoken
  have hle : (documentFrequency corpus token : ℝ) ≤ corpus.length := by
    exact_mod_cast documentFrequency_le corpus token
  have hfreq : (0 : ℝ) < documentFrequency corpus token := by exact_mod_cast hpos
  unfold idf
  rw [if_neg hpos.ne']
  apply Real.log_pos
  have hratio : (0 : ℝ) <
      (corpus.length - documentFrequency corpus token + 1 / 2) / (documentFrequency corpus token + 1 / 2) := by
    apply div_pos <;> linarith
  linarith

/-- The fallback scores a document above zero if it has a token of the query. -/
theorem simpleScore_pos_iff (hdoc : doc ∈ corpus) :
    0 < simpleScore Real.log corpus query doc ↔ sharesToken query doc = true := by
  have haverage := avgdl_nonneg corpus
  have hlength : (0 : ℝ) ≤ if avgdl (K := ℝ) corpus = 0 then 1 else avgdl corpus := by
    split
    · exact zero_le_one
    · exact haverage
  have hquarter : (1 - 3 / 4 : ℝ) = 1 / 4 := by norm_num
  have hterm : ∀ token ∈ doc, 0 < idf Real.log corpus token * doc.count token * (3 / 2 + 1) /
      (doc.count token + 3 / 2 * (1 - 3 / 4 + 3 / 4 * doc.length /
        if avgdl (K := ℝ) corpus = 0 then 1 else avgdl corpus)) := by
    intro token htoken
    have hcount : (0 : ℝ) < doc.count token := by exact_mod_cast List.count_pos_iff.mpr htoken
    have hidf := idf_pos hdoc htoken
    rw [hquarter]
    positivity
  rw [simpleScore_eq, sum_map_pos_iff, sharesToken_iff]
  · apply exists_congr
    intro token
    apply and_congr_right
    intro _
    constructor
    · intro hpos
      by_contra hmiss
      rw [if_pos (List.count_eq_zero_of_not_mem hmiss)] at hpos
      exact lt_irrefl _ hpos
    · intro htoken
      rw [if_neg (List.count_pos_iff.mpr htoken).ne']
      exact hterm token htoken
  · intro token
    split
    · exact le_rfl
    · next hcount => exact (hterm token (List.count_pos_iff.mp (Nat.pos_of_ne_zero hcount))).le

theorem okapiScore_eq (corpus : List (List Token)) (query doc : List Token) :
    okapiScore Real.log corpus query doc = gain Real.log corpus query doc - loss Real.log corpus query doc := by
  unfold okapiScore gain loss
  induction query with
  | nil => simp
  | cons token query ih =>
      simp only [List.map_cons, List.sum_cons]
      rw [ih]
      have hsplit : okapiIdf Real.log corpus token * saturation corpus doc token =
          max (okapiIdf Real.log corpus token) 0 * saturation corpus doc token -
            max (-okapiIdf Real.log corpus token) 0 * saturation corpus doc token := by
        rw [← sub_mul, max_zero_sub_max_neg_zero_eq_self]
      rw [hsplit]
      ring

theorem okapiScore_of_not_shares (hshares : ¬sharesToken query doc = true) :
    okapiScore Real.log corpus query doc = 0 := by
  rw [sharesToken_iff, not_exists] at hshares
  unfold okapiScore
  apply List.sum_eq_zero
  intro x hx
  obtain ⟨token, htoken, rfl⟩ := List.mem_map.mp hx
  have hmiss : token ∉ doc := fun hmem => hshares token ⟨htoken, hmem⟩
  rw [saturation_of_not_mem hmiss, mul_zero]

end Positive

/-! ### Recall -/

/-- What the query's tokens add to the score of a document outweighs what they take from it. -/
def Favoured (corpus : List (List Token)) (query doc : List Token) : Prop :=
  loss Real.log corpus query doc < gain Real.log corpus query doc

theorem okapiScore_pos_iff {corpus : List (List Token)} {query doc : List Token} :
    0 < okapiScore Real.log corpus query doc ↔ Favoured corpus query doc := by
  rw [okapiScore_eq, sub_pos]
  rfl

theorem Favoured.shares {corpus : List (List Token)} {query doc : List Token}
    (hfavoured : Favoured corpus query doc) : sharesToken query doc = true := by
  by_contra hshares
  rw [← okapiScore_pos_iff, okapiScore_of_not_shares hshares] at hfavoured
  exact lt_irrefl _ hfavoured

section Search

variable (okapi : Option (Okapi ℝ)) (chunks : List TextChunk) (query : String)

def tokenized (chunks : List TextChunk) : List (List Token) := chunks.map fun chunk => tokenize chunk.text

/-- The chunks that have a token of the query. -/
def matching (chunks : List TextChunk) (query : String) : List TextChunk :=
  chunks.filter fun chunk => sharesToken (tokenize query) (tokenize chunk.text)

/-- A search that may return the whole corpus returns the chunks that score above zero. -/
theorem searchSparse_perm {limit : Int} (hlimit : chunks.length ≤ limit) :
    ((searchSparse okapi Real.log chunks query limit).map SearchHit.chunk).Perm
      (chunks.filter fun chunk => 0 < chunkScore okapi Real.log chunks query chunk) := by
  have hall : chunks.length ≤ sliceLength limit chunks.length := by
    unfold sliceLength
    split <;> omega
  have hchunk : SearchHit.chunk ∘ (fun chunk : TextChunk =>
      (⟨chunk, chunkScore okapi Real.log chunks query chunk⟩ : SearchHit ℝ)) = id := rfl
  rw [searchSparse_eq, List.map_map, hchunk, List.map_id, List.take_of_length_le]
  · exact (Ranking.perm_rank _ _).filter _
  · rw [(Ranking.perm_rank _ _).length_eq]
    exact hall

theorem perm_matching_iff {limit : Int} (hlimit : chunks.length ≤ limit) :
    ((searchSparse okapi Real.log chunks query limit).map SearchHit.chunk).Perm (matching chunks query) ↔
      ∀ chunk ∈ chunks, 0 < chunkScore okapi Real.log chunks query chunk ↔
        sharesToken (tokenize query) (tokenize chunk.text) = true := by
  have hperm := searchSparse_perm okapi chunks query hlimit
  constructor
  · intro hmatching chunk hchunk
    have hmem := (hperm.symm.trans hmatching).mem_iff (a := chunk)
    unfold matching at hmem
    rw [List.mem_filter, List.mem_filter, decide_eq_true_iff] at hmem
    exact ⟨fun hpos => (hmem.mp ⟨hchunk, hpos⟩).2, fun hshares => (hmem.mpr ⟨hchunk, hshares⟩).2⟩
  · intro hiff
    have hsame : (chunks.filter fun chunk => 0 < chunkScore okapi Real.log chunks query chunk) =
        matching chunks query := by
      apply List.filter_congr
      intro chunk hchunk
      rw [Bool.eq_iff_iff, decide_eq_true_iff]
      exact hiff chunk hchunk
    rwa [hsame] at hperm

variable {chunks query}

/-- Some document is favoured, and the query goes by `BM25Okapi`. -/
def GoesByOkapi (chunks : List TextChunk) (query : String) : Prop :=
  ∃ doc ∈ tokenized chunks, Favoured (tokenized chunks) (tokenize query) doc

/-- The score of a chunk where `rank_bm25` is installed. -/
theorem chunkScore_pos_iff {chunk : TextChunk} (hchunk : chunk ∈ chunks) :
    (GoesByOkapi chunks query → (0 < chunkScore (some (bm25Okapi Real.log)) Real.log chunks query chunk ↔
      Favoured (tokenized chunks) (tokenize query) (tokenize chunk.text))) ∧
    (¬GoesByOkapi chunks query →
      (0 < chunkScore (some (bm25Okapi Real.log)) Real.log chunks query chunk ↔
        sharesToken (tokenize query) (tokenize chunk.text) = true)) := by
  have hdoc : tokenize chunk.text ∈ tokenized chunks := List.mem_map_of_mem hchunk
  have hprimary : ∀ doc, primaryScore (some (bm25Okapi Real.log)) Real.log (tokenized chunks)
      (tokenize query) doc = okapiScore Real.log (tokenized chunks) (tokenize query) doc := by
    intro doc
    cases htokenized : tokenized chunks with
    | nil =>
        rw [htokenized] at hdoc
        cases hdoc
    | cons first rest => rfl
  have hany : (tokenized chunks).any (fun doc => 0 < primaryScore (some (bm25Okapi Real.log)) Real.log
      (tokenized chunks) (tokenize query) doc) = true ↔
        GoesByOkapi chunks query := by
    rw [List.any_eq_true]
    apply exists_congr
    intro doc
    rw [decide_eq_true_iff, hprimary, okapiScore_pos_iff]
  constructor
  · intro hfavoured
    have hscore : chunkScore (some (bm25Okapi Real.log)) Real.log chunks query chunk = _ :=
      if_pos (hany.mpr hfavoured)
    rw [hscore]
    exact (hprimary _).symm ▸ okapiScore_pos_iff
  · intro hnone
    have hscore : chunkScore (some (bm25Okapi Real.log)) Real.log chunks query chunk = _ :=
      if_neg fun hfavoured => hnone (hany.mp hfavoured)
    rw [hscore]
    exact simpleScore_pos_iff hdoc

/-- The queries for which no matching chunk is lost: no document is favoured, or every one is that has
a token of the query. -/
def Recalled (chunks : List TextChunk) (query : String) : Prop :=
  ¬GoesByOkapi chunks query ∨ ∀ doc ∈ tokenized chunks, sharesToken (tokenize query) doc = true →
    Favoured (tokenized chunks) (tokenize query) doc

/-- A search that may return the whole corpus returns the chunks that have a token of the query exactly
if the query is recalled. -/
theorem searchSparse_recall_iff (chunks : List TextChunk) (query : String) {limit : Int}
    (hlimit : chunks.length ≤ limit) :
    ((searchSparse (some (bm25Okapi Real.log)) Real.log chunks query limit).map SearchHit.chunk).Perm
        (matching chunks query) ↔ Recalled chunks query := by
  rw [perm_matching_iff _ chunks query hlimit]
  constructor
  · intro hiff
    by_cases hokapi : GoesByOkapi chunks query
    · right
      intro doc hdoc hshares
      obtain ⟨chunk, hchunk, rfl⟩ := List.mem_map.mp hdoc
      rw [← (chunkScore_pos_iff hchunk).1 hokapi]
      exact (hiff chunk hchunk).mpr hshares
    · exact .inl hokapi
  · intro hrecalled chunk hchunk
    by_cases hokapi : GoesByOkapi chunks query
    · have hall := hrecalled.resolve_left (not_not_intro hokapi)
      rw [(chunkScore_pos_iff hchunk).1 hokapi]
      exact ⟨Favoured.shares, hall _ (List.mem_map_of_mem hchunk)⟩
    · exact (chunkScore_pos_iff hchunk).2 hokapi

end Search

/-! ### Favoured documents -/

section Frequencies

variable {corpus : List (List Token)} {query doc : List Token} {token : Token}

theorem rawIdf_lt_iff (corpus : List (List Token)) (token : Token) :
    (rawIdf Real.log corpus token < 0 ↔ corpus.length < 2 * documentFrequency corpus token) ∧
      (0 < rawIdf Real.log corpus token ↔ 2 * documentFrequency corpus token < corpus.length) := by
  have hle : (documentFrequency corpus token : ℝ) ≤ corpus.length := by
    exact_mod_cast documentFrequency_le corpus token
  have hwith : (0 : ℝ) < documentFrequency corpus token + 1 / 2 := by positivity
  have hwithout : (0 : ℝ) < corpus.length - documentFrequency corpus token + 1 / 2 := by linarith
  unfold rawIdf
  constructor
  · rw [sub_neg, Real.log_lt_log_iff hwithout hwith, ← Nat.cast_lt (α := ℝ)]
    push_cast
    constructor <;> intro h <;> linarith
  · rw [sub_pos, Real.log_lt_log_iff hwith hwithout, ← Nat.cast_lt (α := ℝ)]
    push_cast
    constructor <;> intro h <;> linarith

theorem okapiIdf_pos_iff (hfrequency : 0 < documentFrequency corpus token) :
    0 < okapiIdf Real.log corpus token ↔ 2 * documentFrequency corpus token < corpus.length ∨
      corpus.length < 2 * documentFrequency corpus token ∧ 0 < averageIdf Real.log corpus := by
  obtain ⟨hnegative, hpositive⟩ := rawIdf_lt_iff corpus token
  unfold okapiIdf
  rw [if_neg hfrequency.ne']
  split
  · next hraw =>
      have hmore := hnegative.mp hraw
      have haverage : 0 < 1 / 4 * averageIdf Real.log corpus ↔ 0 < averageIdf Real.log corpus := by
        constructor <;> intro h <;> linarith
      rw [haverage]
      constructor
      · exact fun h => .inr ⟨hmore, h⟩
      · rintro (hless | ⟨-, h⟩)
        · omega
        · exact h
  · next hraw =>
      rw [hpositive]
      constructor
      · exact .inl
      · rintro (hless | ⟨hmore, -⟩)
        · exact hless
        · exact absurd (hnegative.mpr hmore) hraw

theorem averageIdf_nonneg
    (hhalf : ∀ token ∈ vocabulary corpus, 2 * documentFrequency corpus token ≤ corpus.length) :
    0 ≤ averageIdf Real.log corpus := by
  unfold averageIdf
  apply div_nonneg
  · apply List.sum_nonneg
    intro x hx
    obtain ⟨token, htoken, rfl⟩ := List.mem_map.mp hx
    rw [← not_lt, (rawIdf_lt_iff corpus token).1, not_lt]
    exact hhalf token htoken
  · positivity

theorem okapiIdf_nonneg (haverage : 0 ≤ averageIdf Real.log corpus) (token : Token) :
    0 ≤ okapiIdf Real.log corpus token := by
  unfold okapiIdf
  split_ifs with hnone hraw
  · exact le_rfl
  · linarith
  · exact not_lt.mp hraw

/-- As long as the average is not negative, a document is favoured if it has a token of the query that
fewer than half of the documents have, or one that more than half of them have if the average is
positive. -/
theorem favoured_iff (haverage : 0 ≤ averageIdf Real.log corpus) (hdoc : doc ∈ corpus) :
    Favoured corpus query doc ↔ ∃ token ∈ query, token ∈ doc ∧
      (2 * documentFrequency corpus token < corpus.length ∨
        corpus.length < 2 * documentFrequency corpus token ∧ 0 < averageIdf Real.log corpus) := by
  have hloss : loss Real.log corpus query doc = 0 := by
    unfold loss
    apply List.sum_eq_zero
    intro x hx
    obtain ⟨token, -, rfl⟩ := List.mem_map.mp hx
    rw [max_eq_right (neg_nonpos.mpr (okapiIdf_nonneg haverage token)), zero_mul]
  unfold Favoured
  rw [hloss, gain, sum_map_pos_iff]
  · apply exists_congr
    intro token
    apply and_congr_right
    intro _
    rw [max_eq_left (okapiIdf_nonneg haverage token)]
    constructor
    · intro hpos
      have htoken : token ∈ doc := by
        by_contra hmiss
        rw [saturation_of_not_mem hmiss, mul_zero] at hpos
        exact lt_irrefl _ hpos
      refine ⟨htoken, (okapiIdf_pos_iff (documentFrequency_pos hdoc htoken)).mp ?_⟩
      exact pos_of_mul_pos_left hpos (saturation_nonneg corpus doc token)
    · rintro ⟨htoken, hfrequencies⟩
      apply mul_pos
      · exact (okapiIdf_pos_iff (documentFrequency_pos hdoc htoken)).mpr hfrequencies
      · exact saturation_pos htoken
  · intro token
    exact mul_nonneg (le_max_right _ _) (saturation_nonneg corpus doc token)

end Frequencies

/-! ### A matching chunk that is lost -/

def scannedPage (chunkId text : String) : TextChunk := ⟨chunkId, text, "scan.pdf", []⟩

/-- Half of the pages have the word `invoice`. -/
def scannedPages : List TextChunk :=
  [scannedPage "a" "invoice total", scannedPage "b" "invoice", scannedPage "c" "receipt", scannedPage "d" "contract"]

theorem favoured_scannedPages_iff {query doc : List Token} (hdoc : doc ∈ tokenized scannedPages) :
    Favoured (tokenized scannedPages) query doc ↔ ∃ token ∈ query, token ∈ doc ∧
      (2 * documentFrequency (tokenized scannedPages) token < (tokenized scannedPages).length ∨
        (tokenized scannedPages).length < 2 * documentFrequency (tokenized scannedPages) token ∧
          0 < averageIdf Real.log (tokenized scannedPages)) :=
  favoured_iff (averageIdf_nonneg (by decide +kernel)) hdoc

theorem favoured_invoice_total : Favoured (tokenized scannedPages) (tokenize "invoice total")
    (tokenize "invoice total") := by
  rw [favoured_scannedPages_iff (by decide +kernel)]
  exact ⟨"total".toList, by decide +kernel, by decide +kernel, .inl (by decide +kernel)⟩

theorem not_favoured_invoice (query : List Token) :
    ¬Favoured (tokenized scannedPages) query (tokenize "invoice") := by
  rw [favoured_scannedPages_iff (by decide +kernel)]
  rintro ⟨token, -, hmem, hfrequency⟩
  have htokens : tokenize "invoice" = ["invoice".toList] := by decide +kernel
  rw [htokens, List.mem_singleton] at hmem
  subst hmem
  have hhalf : 2 * documentFrequency (tokenized scannedPages) "invoice".toList =
      (tokenized scannedPages).length := by decide +kernel
  omega

/-- A search for both words loses the page that has only the word of half of the pages. -/
theorem searchSparse_loses_page :
    ¬((searchSparse (some (bm25Okapi Real.log)) Real.log scannedPages "invoice total" 4).map
      SearchHit.chunk).Perm (matching scannedPages "invoice total") := by
  have hlimit : (scannedPages.length : Int) ≤ 4 := by decide
  have hpage : scannedPage "b" "invoice" ∈ scannedPages := by simp [scannedPages]
  have hokapi : GoesByOkapi scannedPages "invoice total" :=
    ⟨tokenize "invoice total", by decide +kernel, favoured_invoice_total⟩
  rw [perm_matching_iff _ _ _ hlimit]
  intro hiff
  have hscore := (chunkScore_pos_iff hpage).1 hokapi
  exact not_favoured_invoice _ (hscore.mp ((hiff _ hpage).mpr (by decide +kernel)))

/-- A search for the common word alone falls back, and finds both pages that have it. -/
theorem searchSparse_recall_invoice :
    ((searchSparse (some (bm25Okapi Real.log)) Real.log scannedPages "invoice" 4).map
      SearchHit.chunk).Perm (matching scannedPages "invoice") := by
  refine (searchSparse_recall_iff scannedPages "invoice" (by decide)).mpr (.inl ?_)
  rintro ⟨doc, hdoc, hfavoured⟩
  obtain ⟨token, hquery, htoken, hfrequency⟩ := (favoured_scannedPages_iff hdoc).mp hfavoured
  have htokens : tokenize "invoice" = ["invoice".toList] := by decide +kernel
  rw [htokens, List.mem_singleton] at hquery
  subst hquery
  have hhalf : 2 * documentFrequency (tokenized scannedPages) "invoice".toList =
      (tokenized scannedPages).length := by decide +kernel
  omega

end CoreMesh.Rag
