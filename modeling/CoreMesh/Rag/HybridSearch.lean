import CoreMesh.Rag.SparseSearch
import Mathlib.Data.Prod.Lex

/-!
# Hybrid search

Hits of the dense and of the sparse index are fused by their ranks, the best of them are reranked, and the
best of those are returned. The scores are of any linear order; nothing is taken for granted of adding and
dividing them, so that they may be rounded.
-/

namespace CoreMesh.Rag

open OrderedDict (Distinct setDefault)

/-- A chunk that at least one of the indexes has found. -/
structure FusedCandidate (K : Type) where
  chunk : TextChunk
  rrfScore : K
  denseRank : Option Nat
  sparseRank : Option Nat

def FusedCandidate.chunkId {K : Type} (candidate : FusedCandidate K) : String := candidate.chunk.chunkId

structure RetrievalResult (K : Type) where
  chunkId : String
  text : String
  source : String
  metadata : List (String × Json)
  referenceMarker : String
  score : K
  denseRank : Option Nat
  sparseRank : Option Nat
  rrfScore : K
  rerankScore : K

/-- The retriever once its sparse index has been hydrated; `lower` is `str.lower`. -/
structure HybridRetriever (K : Type) where
  embed : String → List K
  searchDense : List K → Int → List (SearchHit K)
  searchSparse : String → Int → List (SearchHit K)
  rerank : String → List TextChunk → List K
  lower : String → List Char
  denseLimit : Int := 40
  sparseLimit : Int := 40
  rrfK : Nat := 60
  rerankLimit : Int := 20
  denseWeight : K
  sparseWeight : K
  keywordPriority : Bool

/-! ### Technical tokens -/

/-- `[a-z][A-Z]` is somewhere in a token. -/
def hasHump : Token → Bool
  | c :: d :: rest => c.isLower && d.isUpper || hasHump (d :: rest)
  | _ => false

def isTechnical (token : Token) : Bool := token.any "._-/:".toList.contains || hasHump token

def technicalTokens (text : String) : List Token :=
  (((matchesFrom [] text.toList).filter isTechnical).map fun token => token.map Char.toLower).dedup

def technicalMatchCount (lower : String → List Char) (queryTokens : List Token) (text : String) : Nat :=
  queryTokens.countP fun token => (lower text).tails.any (token.isPrefixOf ·)

/-! ### Fusion and ranking -/

/-- `sorted` with `reverse=True`: the largest key first, and what has the same key in its order. -/
def largestFirst {α κ : Type} [LinearOrder κ] (key : α → κ) (l : List α) : List α :=
  l.insertionSort fun a b => key b ≤ key a

section Search

variable {K : Type} [Zero K] [Add K] [Div K] [NatCast K]

/-- `setdefault` with a fresh candidate, which is then changed in place. -/
def update (fused : List (FusedCandidate K)) (chunk : TextChunk)
    (change : FusedCandidate K → FusedCandidate K) : List (FusedCandidate K) :=
  (setDefault FusedCandidate.chunkId fused ⟨chunk, 0, none, none⟩).map fun candidate =>
    if candidate.chunkId = chunk.chunkId then change candidate else candidate

namespace HybridRetriever

variable (r : HybridRetriever K)

def addDense (fused : List (FusedCandidate K)) (entry : SearchHit K × Nat) : List (FusedCandidate K) :=
  update fused entry.1.chunk fun candidate =>
    { candidate with
      denseRank := some entry.2
      rrfScore := candidate.rrfScore + r.denseWeight / ((r.rrfK + entry.2 : Nat) : K) }

def addSparse (fused : List (FusedCandidate K)) (entry : SearchHit K × Nat) : List (FusedCandidate K) :=
  update fused entry.1.chunk fun candidate =>
    { candidate with
      sparseRank := some entry.2
      rrfScore := candidate.rrfScore + r.sparseWeight / ((r.rrfK + entry.2 : Nat) : K) }

def rrfCandidates (denseHits sparseHits : List (SearchHit K)) : List (FusedCandidate K) :=
  (sparseHits.zipIdx 1).foldl r.addSparse ((denseHits.zipIdx 1).foldl r.addDense [])

end HybridRetriever

variable [LinearOrder K]

/-- `candidate.sparse_rank or 10**9`. -/
def FusedCandidate.sparseRankOrLast (candidate : FusedCandidate K) : Nat :=
  match candidate.sparseRank with
  | none | some 0 => 10 ^ 9
  | some rank => rank

def FusedCandidate.sortKey (candidate : FusedCandidate K) : K ×ₗ Bool ×ₗ Int :=
  toLex (candidate.rrfScore, toLex (candidate.sparseRank.isSome, -(candidate.sparseRankOrLast : Int)))

namespace HybridRetriever

variable (r : HybridRetriever K) (query : String)

def denseHits : List (SearchHit K) := r.searchDense (r.embed query) r.denseLimit

def sparseHits : List (SearchHit K) := r.searchSparse query r.sparseLimit

def fused : List (FusedCandidate K) := r.rrfCandidates (r.denseHits query) (r.sparseHits query)

/-- The candidates that are reranked. -/
def reranked : List (FusedCandidate K) :=
  (largestFirst FusedCandidate.sortKey (r.fused query)).take
    (sliceLength r.rerankLimit (r.fused query).length)

def queryTechnical : List Token := if r.keywordPriority then technicalTokens query else []

/-- Without keyword priority there is nothing in front of the score: no token matches. -/
def sortKey (item : FusedCandidate K × K) : Nat ×ₗ K ×ₗ K ×ₗ Bool ×ₗ Int :=
  toLex (technicalMatchCount r.lower (r.queryTechnical query) item.1.chunk.text,
    toLex (item.2, item.1.sortKey))

def toResult (item : FusedCandidate K × K) : RetrievalResult K where
  chunkId := item.1.chunk.chunkId
  text := item.1.chunk.text
  source := item.1.chunk.source
  metadata := item.1.chunk.metadata
  referenceMarker := s!"[{item.1.chunk.source}:{item.1.chunk.chunkId}]"
  score := item.2
  denseRank := item.1.denseRank
  sparseRank := item.1.sparseRank
  rrfScore := item.1.rrfScore
  rerankScore := item.2

def search (topK : Int) : Except String (List (RetrievalResult K)) :=
  if topK ≤ 0 then .ok []
  else
    let candidates := r.reranked query
    if candidates.isEmpty then .ok []
    else
      let rerankScores := r.rerank query (candidates.map FusedCandidate.chunk)
      if rerankScores.length ≠ candidates.length then
        .error "Reranker returned a score count that does not match candidates."
      else
        let ranked := largestFirst (r.sortKey query) (candidates.zip rerankScores)
        .ok ((ranked.take (sliceLength topK ranked.length)).map toResult)

end HybridRetriever

end Search

/-! ### What is fused -/

/-- The place of a chunk in a list of hits, from one on. -/
def rankIn {K : Type} (hits : List (SearchHit K)) (chunkId : String) : Option Nat :=
  (hits.findIdx? fun hit => hit.chunk.chunkId == chunkId).map (· + 1)

def hitIds {K : Type} (hits : List (SearchHit K)) : List String := hits.map fun hit => hit.chunk.chunkId

theorem mem_hitIds_concat {K : Type} {hits : List (SearchHit K)} {hit : SearchHit K} {chunkId : String} :
    chunkId ∈ hitIds (hits ++ [hit]) ↔ chunkId ∈ hitIds hits ∨ chunkId = hit.chunk.chunkId := by
  rw [hitIds, List.map_append, List.mem_append, List.map_singleton, List.mem_singleton]
  rfl

theorem rankIn_eq_none_iff {K : Type} {hits : List (SearchHit K)} {chunkId : String} :
    rankIn hits chunkId = none ↔ chunkId ∉ hitIds hits := by
  rw [rankIn, Option.map_eq_none_iff, List.findIdx?_eq_none_iff]
  constructor
  · intro hnone hin
    obtain ⟨hit, hhit, rfl⟩ := List.mem_map.mp hin
    have hne := hnone hit hhit
    simp at hne
  · intro hnot hit hhit
    refine beq_eq_false_iff_ne.mpr ?_
    rintro rfl
    exact hnot (List.mem_map_of_mem hhit)

theorem rankIn_concat_self {K : Type} {hits : List (SearchHit K)} {hit : SearchHit K}
    (hfresh : hit.chunk.chunkId ∉ hitIds hits) :
    rankIn (hits ++ [hit]) hit.chunk.chunkId = some (hits.length + 1) := by
  have hnone := rankIn_eq_none_iff.mpr hfresh
  rw [rankIn, Option.map_eq_none_iff] at hnone
  rw [rankIn, List.findIdx?_append, hnone]
  simp [List.findIdx?_cons]

theorem rankIn_concat_of_ne {K : Type} {hits : List (SearchHit K)} {hit : SearchHit K} {chunkId : String}
    (hne : hit.chunk.chunkId ≠ chunkId) : rankIn (hits ++ [hit]) chunkId = rankIn hits chunkId := by
  rw [rankIn, rankIn, List.findIdx?_append]
  simp [List.findIdx?_cons, hne]

/-- Hits that are all new are taken up one by one, each with its place in the list. -/
theorem foldl_of_fresh {K S : Type} {P : List (SearchHit K) → S → Prop} {step : S → SearchHit K × Nat → S}
    (hstep : ∀ {done state hit}, P done state → hit.chunk.chunkId ∉ hitIds done →
      P (done ++ [hit]) (step state (hit, done.length + 1)))
    {done hits : List (SearchHit K)} {state : S} (hdone : P done state)
    (hdistinct : (hitIds (done ++ hits)).Nodup) :
    P (done ++ hits) ((hits.zipIdx (done.length + 1)).foldl step state) := by
  induction hits generalizing done state with
  | nil =>
      rw [List.append_nil]
      exact hdone
  | cons hit hits ih =>
      have hfresh : hit.chunk.chunkId ∉ hitIds done := by
        rw [hitIds, List.map_append, List.map_cons] at hdistinct
        exact fun hin => (List.nodup_append.mp hdistinct).2.2 _ hin _ List.mem_cons_self rfl
      have hnext := @ih (done ++ [hit]) _ (hstep hdone hfresh) (by rw [List.append_assoc]; exact hdistinct)
      rw [List.append_assoc, List.length_append] at hnext
      exact hnext

section Update

variable {K : Type} [Zero K]

theorem map_chunkId_update (fused : List (FusedCandidate K)) (chunk : TextChunk)
    {change : FusedCandidate K → FusedCandidate K} (hchange : ∀ c, (change c).chunk = c.chunk) :
    (update fused chunk change).map FusedCandidate.chunkId =
      (setDefault FusedCandidate.chunkId fused ⟨chunk, 0, none, none⟩).map FusedCandidate.chunkId := by
  rw [update, List.map_map]
  refine List.map_congr_left fun candidate _ => ?_
  rw [Function.comp_apply]
  split
  · rw [FusedCandidate.chunkId, hchange, FusedCandidate.chunkId]
  · rfl

theorem distinct_update {fused : List (FusedCandidate K)} (hdistinct : Distinct FusedCandidate.chunkId fused)
    (chunk : TextChunk) {change : FusedCandidate K → FusedCandidate K}
    (hchange : ∀ c, (change c).chunk = c.chunk) :
    Distinct FusedCandidate.chunkId (update fused chunk change) := by
  rw [Distinct, map_chunkId_update fused chunk hchange]
  exact hdistinct.setDefault _

theorem mem_ids_update {fused : List (FusedCandidate K)} {chunk : TextChunk}
    {change : FusedCandidate K → FusedCandidate K} (hchange : ∀ c, (change c).chunk = c.chunk)
    {chunkId : String} : chunkId ∈ (update fused chunk change).map FusedCandidate.chunkId ↔
      chunkId ∈ fused.map FusedCandidate.chunkId ∨ chunkId = chunk.chunkId := by
  rw [map_chunkId_update fused chunk hchange, OrderedDict.map_key_setDefault]
  show chunkId ∈ (if chunk.chunkId ∈ fused.map FusedCandidate.chunkId then _ else _ ++ [chunk.chunkId]) ↔ _
  split
  · rename_i hin
    refine ⟨.inl, ?_⟩
    rintro (h | rfl)
    · exact h
    · exact hin
  · rw [List.mem_append, List.mem_singleton]

/-- A candidate is as it was, or it is the one that has been changed. -/
theorem mem_update {fused : List (FusedCandidate K)} {chunk : TextChunk}
    {change : FusedCandidate K → FusedCandidate K} {candidate : FusedCandidate K}
    (hmem : candidate ∈ update fused chunk change) :
    (candidate ∈ fused ∧ candidate.chunkId ≠ chunk.chunkId) ∨
      ∃ before, candidate = change before ∧ before.chunkId = chunk.chunkId ∧
        (before ∈ fused ∨
          before = ⟨chunk, 0, none, none⟩ ∧ chunk.chunkId ∉ fused.map FusedCandidate.chunkId) := by
  obtain ⟨before, hbefore, rfl⟩ := List.mem_map.mp hmem
  have hcases : before ∈ fused ∨
      before = ⟨chunk, 0, none, none⟩ ∧ chunk.chunkId ∉ fused.map FusedCandidate.chunkId := by
    rw [setDefault] at hbefore
    split at hbefore
    · exact .inl hbefore
    · rename_i hnone
      rw [List.mem_append, List.mem_singleton] at hbefore
      exact hbefore.imp_right fun h => ⟨h, fun hin => hnone (OrderedDict.any_key_iff.mpr hin)⟩
  by_cases hid : before.chunkId = chunk.chunkId
  · rw [if_pos hid]
    exact .inr ⟨before, rfl, hid, hcases⟩
  · rw [if_neg hid]
    refine .inl ⟨hcases.resolve_right ?_, hid⟩
    rintro ⟨rfl, -⟩
    exact hid rfl

end Update

section Fusion

variable {K : Type} [Zero K] [Add K] [Div K] [NatCast K]

/-- What the lists that contain a chunk contribute to its score, added up. -/
def HybridRetriever.rrfSum (r : HybridRetriever K) (denseHits sparseHits : List (SearchHit K))
    (chunkId : String) : K :=
  (((rankIn denseHits chunkId).toList.map fun rank => r.denseWeight / ((r.rrfK + rank : Nat) : K)) ++
    (rankIn sparseHits chunkId).toList.map fun rank =>
      r.sparseWeight / ((r.rrfK + rank : Nat) : K)).foldl (· + ·) 0

/-- The candidates are those of the hits, each once, with its ranks and what they contribute. -/
structure Fuses (r : HybridRetriever K) (denseHits sparseHits : List (SearchHit K))
    (fused : List (FusedCandidate K)) : Prop where
  distinct : Distinct FusedCandidate.chunkId fused
  ids : ∀ chunkId, chunkId ∈ fused.map FusedCandidate.chunkId ↔
    chunkId ∈ hitIds denseHits ∨ chunkId ∈ hitIds sparseHits
  ranks : ∀ candidate ∈ fused, candidate.denseRank = rankIn denseHits candidate.chunkId ∧
    candidate.sparseRank = rankIn sparseHits candidate.chunkId
  scores : ∀ candidate ∈ fused, candidate.rrfScore = r.rrfSum denseHits sparseHits candidate.chunkId

/-- A hit of the dense list is new. -/
theorem Fuses.addDense {r : HybridRetriever K} {denseHits : List (SearchHit K)}
    {fused : List (FusedCandidate K)} (hfuses : Fuses r denseHits [] fused) {hit : SearchHit K}
    (hfresh : hit.chunk.chunkId ∉ hitIds denseHits) :
    Fuses r (denseHits ++ [hit]) [] (r.addDense fused (hit, denseHits.length + 1)) := by
  have hcandidate : ∀ candidate ∈ r.addDense fused (hit, denseHits.length + 1),
      candidate.denseRank = rankIn (denseHits ++ [hit]) candidate.chunkId ∧
        candidate.sparseRank = rankIn ([] : List (SearchHit K)) candidate.chunkId ∧
        candidate.rrfScore = r.rrfSum (denseHits ++ [hit]) [] candidate.chunkId := by
    intro candidate hmem
    obtain ⟨hin, hne⟩ | ⟨before, rfl, hid, hbefore⟩ := mem_update hmem
    · rw [HybridRetriever.rrfSum, rankIn_concat_of_ne hne.symm]
      exact ⟨(hfuses.ranks _ hin).1, (hfuses.ranks _ hin).2, hfuses.scores _ hin⟩
    · have hnew : before = ⟨hit.chunk, 0, none, none⟩ := by
        obtain hin | ⟨rfl, -⟩ := hbefore
        · have hids := (hfuses.ids _).mp (List.mem_map_of_mem hin)
          rw [hid] at hids
          exact absurd hids (not_or.mpr ⟨hfresh, List.not_mem_nil⟩)
        · rfl
      subst hnew
      have hrank := rankIn_concat_self hfresh
      refine ⟨hrank.symm, rfl, ?_⟩
      show 0 + _ = HybridRetriever.rrfSum r (denseHits ++ [hit]) [] hit.chunk.chunkId
      rw [HybridRetriever.rrfSum, hrank]
      rfl
  refine ⟨distinct_update hfuses.distinct _ fun _ => rfl, fun chunkId => ?_,
    fun candidate hmem => ⟨(hcandidate candidate hmem).1, (hcandidate candidate hmem).2.1⟩,
    fun candidate hmem => (hcandidate candidate hmem).2.2⟩
  refine (mem_ids_update ?_).trans ?_
  · exact fun _ => rfl
  rw [hfuses.ids, mem_hitIds_concat]
  exact or_right_comm

/-- A hit of the sparse list is new, or a hit of the dense list gets its second rank. -/
theorem Fuses.addSparse {r : HybridRetriever K} {denseHits sparseHits : List (SearchHit K)}
    {fused : List (FusedCandidate K)} (hfuses : Fuses r denseHits sparseHits fused) {hit : SearchHit K}
    (hfresh : hit.chunk.chunkId ∉ hitIds sparseHits) :
    Fuses r denseHits (sparseHits ++ [hit]) (r.addSparse fused (hit, sparseHits.length + 1)) := by
  have hcandidate : ∀ candidate ∈ r.addSparse fused (hit, sparseHits.length + 1),
      candidate.denseRank = rankIn denseHits candidate.chunkId ∧
        candidate.sparseRank = rankIn (sparseHits ++ [hit]) candidate.chunkId ∧
        candidate.rrfScore = r.rrfSum denseHits (sparseHits ++ [hit]) candidate.chunkId := by
    intro candidate hmem
    obtain ⟨hin, hne⟩ | ⟨before, rfl, hid, hbefore⟩ := mem_update hmem
    · rw [HybridRetriever.rrfSum, rankIn_concat_of_ne hne.symm]
      exact ⟨(hfuses.ranks _ hin).1, (hfuses.ranks _ hin).2, hfuses.scores _ hin⟩
    · have hnone := rankIn_eq_none_iff.mpr hfresh
      have hrank := rankIn_concat_self hfresh
      have hprior : before.denseRank = rankIn denseHits hit.chunk.chunkId ∧
          before.rrfScore = r.rrfSum denseHits sparseHits hit.chunk.chunkId := by
        obtain hin | ⟨rfl, hout⟩ := hbefore
        · exact ⟨hid ▸ (hfuses.ranks _ hin).1, hid ▸ hfuses.scores _ hin⟩
        · rw [hfuses.ids, not_or] at hout
          rw [HybridRetriever.rrfSum, rankIn_eq_none_iff.mpr hout.1, hnone]
          exact ⟨rfl, rfl⟩
      rw [HybridRetriever.rrfSum, hnone, Option.toList_none, List.map_nil, List.append_nil] at hprior
      show before.denseRank = rankIn denseHits before.chunkId ∧
        some (sparseHits.length + 1) = rankIn (sparseHits ++ [hit]) before.chunkId ∧
        before.rrfScore + _ = r.rrfSum denseHits (sparseHits ++ [hit]) before.chunkId
      rw [hid, hrank, HybridRetriever.rrfSum, hrank, Option.toList_some, List.map_singleton,
        List.foldl_append, ← hprior.2]
      exact ⟨hprior.1, rfl, rfl⟩
  refine ⟨distinct_update hfuses.distinct _ fun _ => rfl, fun chunkId => ?_,
    fun candidate hmem => ⟨(hcandidate candidate hmem).1, (hcandidate candidate hmem).2.1⟩,
    fun candidate hmem => (hcandidate candidate hmem).2.2⟩
  refine (mem_ids_update ?_).trans ?_
  · exact fun _ => rfl
  rw [hfuses.ids, mem_hitIds_concat]
  exact or_assoc

theorem fuses_rrfCandidates (r : HybridRetriever K) {denseHits sparseHits : List (SearchHit K)}
    (hdense : (hitIds denseHits).Nodup) (hsparse : (hitIds sparseHits).Nodup) :
    Fuses r denseHits sparseHits (r.rrfCandidates denseHits sparseHits) := by
  have hstart : Fuses r [] [] [] := by
    refine ⟨List.nodup_nil, fun chunkId => ?_, fun candidate hmem => absurd hmem List.not_mem_nil,
      fun candidate hmem => absurd hmem List.not_mem_nil⟩
    simp [hitIds]
  have hfirst : Fuses r denseHits [] ((denseHits.zipIdx 1).foldl r.addDense []) :=
    @foldl_of_fresh K _ (fun done fused => Fuses r done [] fused) _
      (fun hfuses hfresh => hfuses.addDense hfresh) [] denseHits _ hstart hdense
  exact @foldl_of_fresh K _ (Fuses r denseHits) _ (fun hfuses hfresh => hfuses.addSparse hfresh) []
    sparseHits _ hfirst hsparse

end Fusion

/-! ### What is returned -/

section Ranking

variable {α κ : Type} [LinearOrder κ] (key : α → κ) (l : List α)

theorem perm_largestFirst : (largestFirst key l).Perm l := List.perm_insertionSort _ l

theorem pairwise_largestFirst : (largestFirst key l).Pairwise fun a b => key b ≤ key a := by
  have : Std.Total fun a b => key b ≤ key a := ⟨fun a b => le_total (key b) (key a)⟩
  have : IsTrans α fun a b => key b ≤ key a := ⟨fun a b c hab hbc => le_trans hbc hab⟩
  exact List.pairwise_insertionSort _ l

/-- What is left out comes after what is kept. -/
theorem le_of_mem_take_of_mem_drop (n : Nat) : ∀ a ∈ (largestFirst key l).take n,
    ∀ b ∈ (largestFirst key l).drop n, key b ≤ key a := by
  have hsorted := pairwise_largestFirst key l
  rw [← List.take_append_drop n (largestFirst key l)] at hsorted
  intro a ha b hb
  exact (List.pairwise_append.mp hsorted).2.2 a ha b hb

end Ranking

section Law

variable {K : Type} [Zero K] [Add K] [Div K] [NatCast K] [LinearOrder K]

/-- The technical matches with keyword priority, then the rerank score, then the fused score. -/
def HybridRetriever.resultKey (r : HybridRetriever K) (query : String) (result : RetrievalResult K) :
    Nat ×ₗ K ×ₗ K :=
  toLex (if r.keywordPriority then technicalMatchCount r.lower (technicalTokens query) result.text else 0,
    toLex (result.rerankScore, result.rrfScore))

/-- The law of hybrid search. -/
structure SearchLaw (r : HybridRetriever K) (query : String) (topK : Int)
    (results : List (RetrievalResult K)) : Prop where
  distinct : (results.map RetrievalResult.chunkId).Nodup
  length : results.length = min topK.toNat (min r.rerankLimit.toNat
    (hitIds (r.denseHits query) ++ hitIds (r.sparseHits query)).dedup.length)
  scores : ∀ result ∈ results,
    result.rrfScore = r.rrfSum (r.denseHits query) (r.sparseHits query) result.chunkId
  leftOut : ∀ candidate ∈ r.fused query, candidate ∉ r.reranked query →
    ∀ kept ∈ r.reranked query, candidate.rrfScore ≤ kept.rrfScore
  ordered : results.Pairwise fun a b => r.resultKey query b ≤ r.resultKey query a

section Fused

omit [LinearOrder K]

/-- As many chunks are fused as have been hit. -/
theorem Fuses.length_eq {r : HybridRetriever K} {denseHits sparseHits : List (SearchHit K)}
    {fused : List (FusedCandidate K)} (hfuses : Fuses r denseHits sparseHits fused) :
    fused.length = (hitIds denseHits ++ hitIds sparseHits).dedup.length := by
  have hperm : (fused.map FusedCandidate.chunkId).Perm (hitIds denseHits ++ hitIds sparseHits).dedup := by
    refine (List.perm_ext_iff_of_nodup hfuses.distinct (List.nodup_dedup _)).mpr fun chunkId => ?_
    rw [hfuses.ids, List.mem_dedup, List.mem_append]
  rw [← hperm.length_eq, List.length_map]

end Fused

namespace HybridRetriever

variable (r : HybridRetriever K) (query : String)

theorem subperm_reranked : (r.reranked query).Subperm (r.fused query) :=
  (List.take_sublist _ _).subperm.trans (perm_largestFirst _ _).subperm

theorem length_reranked (hlimit : 1 ≤ r.rerankLimit) :
    (r.reranked query).length = min r.rerankLimit.toNat (r.fused query).length := by
  have hlength : sliceLength r.rerankLimit (r.fused query).length = r.rerankLimit.toNat := by
    rw [sliceLength, if_neg (by omega)]
  rw [reranked, List.length_take, hlength, (perm_largestFirst _ _).length_eq]

/-- The reranked candidates with their scores, the best of them first. -/
def ranked : List (FusedCandidate K × K) :=
  largestFirst (r.sortKey query)
    ((r.reranked query).zip (r.rerank query ((r.reranked query).map FusedCandidate.chunk)))

variable {r query}

/-- Nothing is raised where the reranker scores each candidate; that there may be none changes nothing. -/
theorem search_eq (hscores : ∀ chunks, (r.rerank query chunks).length = chunks.length) {topK : Int}
    (htop : 1 ≤ topK) :
    r.search query topK = .ok (((r.ranked query).take topK.toNat).map toResult) := by
  have hlength : ∀ length, sliceLength topK length = topK.toNat := by
    intro length
    rw [sliceLength, if_neg (by omega)]
  have hcount := hscores ((r.reranked query).map FusedCandidate.chunk)
  rw [List.length_map] at hcount
  rw [search, if_neg (by omega), ranked]
  dsimp only
  rw [if_neg (not_not.mpr hcount), hlength]
  split
  · rename_i hempty
    rw [List.isEmpty_iff] at hempty
    rw [hempty]
    simp [largestFirst]
  · rfl

theorem map_fst_ranked (hscores : ∀ chunks, (r.rerank query chunks).length = chunks.length) :
    ((r.ranked query).map Prod.fst).Perm (r.reranked query) := by
  have hcount := hscores ((r.reranked query).map FusedCandidate.chunk)
  rw [List.length_map] at hcount
  have hperm := (perm_largestFirst (r.sortKey query)
    ((r.reranked query).zip (r.rerank query ((r.reranked query).map FusedCandidate.chunk)))).map Prod.fst
  rw [List.map_fst_zip hcount.ge] at hperm
  exact hperm

omit [Zero K] [Add K] [Div K] [NatCast K] in
/-- The key of a result is the front of the key that its candidate is sorted by. -/
theorem resultKey_le_of_sortKey_le {a b : FusedCandidate K × K}
    (hle : r.sortKey query b ≤ r.sortKey query a) :
    r.resultKey query (toResult b) ≤ r.resultKey query (toResult a) := by
  have hmatches : ∀ item : FusedCandidate K × K,
      technicalMatchCount r.lower (r.queryTechnical query) item.1.chunk.text =
        if r.keywordPriority then technicalMatchCount r.lower (technicalTokens query) item.1.chunk.text
        else 0 := by
    intro item
    rw [queryTechnical]
    split
    · rfl
    · rfl
  rw [sortKey, sortKey, hmatches, hmatches, Prod.Lex.toLex_le_toLex] at hle
  show toLex (_, toLex (b.2, b.1.rrfScore)) ≤ toLex (_, toLex (a.2, a.1.rrfScore))
  rw [Prod.Lex.toLex_le_toLex]
  refine hle.imp_right fun hsame => ⟨hsame.1, ?_⟩
  have hbase := hsame.2
  rw [Prod.Lex.toLex_le_toLex] at hbase ⊢
  refine hbase.imp_right fun hscore => ⟨hscore.1, ?_⟩
  have hcandidate := hscore.2
  dsimp only at hcandidate ⊢
  rw [FusedCandidate.sortKey, FusedCandidate.sortKey, Prod.Lex.toLex_le_toLex] at hcandidate
  obtain hlt | ⟨heq, -⟩ := hcandidate
  · exact hlt.le
  · exact heq.le

end HybridRetriever

/-- What is left out before reranking is fused no higher than what is kept. -/
theorem rrfScore_le_of_not_mem_reranked {r : HybridRetriever K} {query : String}
    {candidate kept : FusedCandidate K} (hfused : candidate ∈ r.fused query)
    (hout : candidate ∉ r.reranked query) (hkept : kept ∈ r.reranked query) :
    candidate.rrfScore ≤ kept.rrfScore := by
  have hrest : candidate ∈ (largestFirst FusedCandidate.sortKey (r.fused query)).drop
      (sliceLength r.rerankLimit (r.fused query).length) := by
    have hin := (perm_largestFirst FusedCandidate.sortKey (r.fused query)).mem_iff.mpr hfused
    rw [← List.take_append_drop (sliceLength r.rerankLimit (r.fused query).length) (largestFirst _ _),
      List.mem_append] at hin
    exact hin.resolve_left hout
  have hle := le_of_mem_take_of_mem_drop FusedCandidate.sortKey _ _ kept hkept candidate hrest
  rw [FusedCandidate.sortKey, FusedCandidate.sortKey, Prod.Lex.toLex_le_toLex] at hle
  obtain hlt | ⟨heq, -⟩ := hle
  · exact hlt.le
  · exact heq.le

/-- The law of hybrid search holds for all hits, ties and overlaps. -/
theorem search_law {r : HybridRetriever K} {query : String} {topK : Int}
    (hdense : (hitIds (r.denseHits query)).Nodup) (hsparse : (hitIds (r.sparseHits query)).Nodup)
    (hscores : ∀ chunks, (r.rerank query chunks).length = chunks.length) (htop : 1 ≤ topK)
    (hlimit : 1 ≤ r.rerankLimit) :
    ∃ results, r.search query topK = .ok results ∧ SearchLaw r query topK results := by
  have hfuses := fuses_rrfCandidates r hdense hsparse
  have hperm := HybridRetriever.map_fst_ranked hscores
  refine ⟨_, HybridRetriever.search_eq hscores htop, ?_, ?_, ?_, ?_, ?_⟩
  · have hids : ((r.ranked query).map Prod.fst).map FusedCandidate.chunkId |>.Nodup := by
      refine (hperm.map _).nodup_iff.mpr ?_
      obtain ⟨kept, hkept, hsub⟩ := r.subperm_reranked query
      exact (hkept.map _).nodup_iff.mp (hfuses.distinct.sublist (hsub.map _))
    rw [List.map_map] at hids ⊢
    exact hids.sublist ((List.take_sublist _ _).map _)
  · rw [List.length_map, List.length_take, ← List.length_map Prod.fst, hperm.length_eq,
      HybridRetriever.length_reranked r query hlimit, HybridRetriever.fused, hfuses.length_eq]
  · intro result hresult
    obtain ⟨item, hitem, rfl⟩ := List.mem_map.mp hresult
    have hreranked := hperm.mem_iff.mp (List.mem_map_of_mem (List.mem_of_mem_take hitem))
    exact hfuses.scores _ ((r.subperm_reranked query).subset hreranked)
  · intro candidate hfused hout kept hkept
    exact rrfScore_le_of_not_mem_reranked hfused hout hkept
  · rw [List.pairwise_map]
    exact ((pairwise_largestFirst _ _).sublist (List.take_sublist _ _)).imp
      HybridRetriever.resultKey_le_of_sortKey_le

/-- Two pages are found by one index each, and one by both. -/
def threePages : HybridRetriever ℚ where
  embed := fun _ => [1]
  searchDense := fun _ _ => [⟨⟨"a", "paid", "a.pdf", []⟩, 9 / 10⟩, ⟨⟨"b", "INV-7", "b.pdf", []⟩, 1 / 2⟩]
  searchSparse := fun _ _ => [⟨⟨"b", "INV-7", "b.pdf", []⟩, 3⟩, ⟨⟨"c", "due", "c.pdf", []⟩, 1⟩]
  rerank := fun _ chunks => chunks.map fun chunk => chunk.text.length
  lower := fun text => text.toList.map Char.toLower
  denseWeight := 1
  sparseWeight := 1
  keywordPriority := true

theorem search_law_threePages : ∃ results, threePages.search "INV-7" 2 = .ok results ∧
    SearchLaw threePages "INV-7" 2 results := by
  apply search_law
  · show ["a", "b"].Nodup
    decide
  · show ["b", "c"].Nodup
    decide
  · exact fun chunks => List.length_map _
  · decide
  · decide

end Law

end CoreMesh.Rag
